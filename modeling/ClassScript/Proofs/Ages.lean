import ClassScript.Proofs.Inheritance.Precedence
import ClassScript.Proofs.Scoping

/-!
# Everything Refers to What Is Older

All links lead to what was made before, so the bounds on following them are never reached.

Scopes, classes and objects are counted separately, so what is older is seen from the steps that
lead to a machine, not from the heap.
-/

namespace ClassScript

open List Array Machine

variable {m : Machine}

/-! ## Links -/

inductive Item where
  | scope (s : ScopeId)
  | type (c : ClassId)
  | object (o : ObjectId)

namespace Heap

def Has (h : Heap) : Item → Prop
  | .scope s => s < h.scopes.size
  | .type c => c < h.classes.size
  | .object o => o < h.objects.size

/-- An item links to another: a scope to the one around it and to the one in which its function was
    defined, a class to its super classes, an object to its class and the scope of its members. -/
inductive Refers (h : Heap) : Item → Item → Prop
  | parent {s p : ScopeId} (hp : (h.scopeAt s).parent = some p) :
      h.Refers (.scope s) (.scope p)
  | closure {s c : ScopeId} {receiver : Option ObjectId}
      (hk : (h.scopeAt s).kind = .frame c receiver) : h.Refers (.scope s) (.scope c)
  | super {c p : ClassId} (hp : p ∈ (h.classAt c).supers) : h.Refers (.type c) (.type p)
  | class {o : ObjectId} (ho : o < h.objects.size) :
      h.Refers (.object o) (.type (h.objectAt o).type)
  | classScope {o : ObjectId} (ho : o < h.objects.size) :
      h.Refers (.object o) (.scope (h.classAt (h.objectAt o).type).scope)

structure Ordered (h : Heap) : Prop where
  scopes : ∀ {s t : ScopeId}, h.Refers (.scope s) (.scope t) → t < s
  classes : ∀ {c p : ClassId}, h.Refers (.type c) (.type p) → p < c

structure Typed (h : Heap) : Prop where
  builtin : ClassId.type < h.classes.size
  objects : ∀ o, o < h.objects.size → (h.objectAt o).type < h.classes.size

variable {h : Heap} {i j : Item}

theorem Refers.has (hr : h.Refers i j) : h.Has i := by
  cases hr with
  | @parent s p hp => exact lt_size_of_getD (P := fun sc : Scope => sc.parent = some p) hp nofun
  | closure hk => exact lt_of_frame hk
  | @super c p hp => exact lt_size_of_getD (P := fun k : Class => p ∈ k.supers) hp not_mem_nil
  | «class» ho | classScope ho => exact ho

theorem Linked.ordered (hl : h.Linked) {modules : List (String × ClassId)}
    (ho : h.Owned modules) : h.Ordered where
  scopes hr := by
    cases hr with
    | parent hp => exact hl.parent_lt hp
    | closure hk => exact (hl.scopes _ (lt_of_frame hk)).closure _ _ hk
  classes hr := by
    cases hr with
    | super hp => exact (ho.supers _ _ hp).1

/-- Links cannot be followed forever: among scopes and among classes the numbers get
    smaller, and nothing links to an object. -/
theorem Ordered.wellFounded (ho : h.Ordered) : WellFounded fun j i => h.Refers i j := by
  have hscope (s : ScopeId) : Acc (fun j i => h.Refers i j) (.scope s) := by
    induction s using Nat.strongRecOn with
    | ind s ih =>
      refine ⟨_, fun j hj => ?_⟩
      cases hj with
      | parent hp => exact ih _ (ho.scopes (.parent hp))
      | closure hk => exact ih _ (ho.scopes (.closure hk))
  have hclass (c : ClassId) : Acc (fun j i => h.Refers i j) (.type c) := by
    induction c using Nat.strongRecOn with
    | ind c ih =>
      refine ⟨_, fun j hj => ?_⟩
      cases hj with
      | super hp => exact ih _ (ho.classes (.super hp))
  refine ⟨fun i => ?_⟩
  cases i with
  | scope s => exact hscope s
  | type c => exact hclass c
  | object o =>
    refine ⟨_, fun j hj => ?_⟩
    cases hj with
    | «class» _ => exact hclass _
    | classScope _ => exact hscope _

/-! ## What a step makes -/

theorem flatten_objects (h : Heap) (c : ClassId) : (h.flatten c).objects = h.objects := by
  unfold flatten
  dsimp only
  split
  · rfl
  · -- Members are merged into scopes, one super class after the other.
    refine List.foldlRecOn (motive := fun k : Heap => k.objects = h.objects) _ _ rfl
      fun k hk p _ => ?_
    unfold mergeSuper
    dsimp only
    split <;> exact hk

theorem flatten_scopes_size (h : Heap) (c : ClassId) :
    (h.flatten c).scopes.size ≤ h.scopes.size + 1 := by
  by_cases hs : (h.classAt c).supers = []
  · rw [flatten_of_supers_nil hs]
    omega
  · have hflat := h.flatten_eq c hs
    have hsize : (h.gathered c).scopes.size = h.scopes.size + 1 :=
      (h.gathered_sameBut c).size.trans (size_push _)
    have hmerged : (h.flatten c).scopes.size = (h.gathered c).scopes.size := by
      rw [hflat]
      exact size_modify
    omega

end Heap

/-- What a step makes: at most one scope, one class and one object, of a class that was there. -/
structure Machine.Makes (m m' : Machine) : Prop where
  scopes : m'.heap.scopes.size ≤ m.heap.scopes.size + 1
  classes : m'.heap.classes.size ≤ m.heap.classes.size + 1
  objects : (m'.heap.objects.size = m.heap.objects.size ∧
      ∀ o, (m'.heap.objectAt o).type = (m.heap.objectAt o).type) ∨
    ∃ type payload, type < m.heap.classes.size ∧
      m'.heap.objects = m.heap.objects.push ⟨type, payload⟩

theorem Write.makes {C : Law} {Γ : List Fact} {f : Heap → Heap} (hf : Write C Γ f) (m : Machine) :
    m.Makes { m with heap := f m.heap } := by
  -- The places of all tables stay, whichever of them is changed.
  cases hf with
  | field f _ _ =>
    refine ⟨Nat.le_succ _, ?_, .inl ⟨rfl, fun _ => rfl⟩⟩
    exact Nat.le_trans (Nat.le_of_eq size_modify) (Nat.le_succ _)
  | contents id f =>
    refine ⟨Nat.le_succ _, Nat.le_succ _, .inl ⟨size_modify, fun o => ?_⟩⟩
    exact getD_modify Object.type m.heap.objects
      (fun o => { o with payload := o.payload.change f }) (fun _ => rfl) default id o
  | _ =>
    refine ⟨?_, Nat.le_succ _, .inl ⟨rfl, fun _ => rfl⟩⟩
    exact Nat.le_trans (Nat.le_of_eq size_modify) (Nat.le_succ _)

namespace Machine

variable {m m' : Machine}

theorem Makes.of_same (hscopes : m'.heap.scopes.size ≤ m.heap.scopes.size + 1)
    (hclasses : m'.heap.classes.size ≤ m.heap.classes.size + 1)
    (hobjects : m'.heap.objects = m.heap.objects) : m.Makes m' := by
  refine ⟨hscopes, hclasses, .inl ⟨by rw [hobjects], fun o => ?_⟩⟩
  unfold Heap.objectAt
  rw [hobjects]

theorem Step.makes (hm : m.Steady) (ht : m.heap.Typed) (hstep : m.Step m') : m.Makes m' := by
  have hone {α : Type} (xs : Array α) (x : α) : (xs.push x).size ≤ xs.size + 1 :=
    Nat.le_of_eq (size_push x)
  cases hstep with
  | still hheap _ => exact .of_same (by rw [hheap]; omega) (by rw [hheap]; omega) (by rw [hheap])
  | write hf _ => exact hf.makes m
  | create hf hΓ =>
    cases hf with
    | object type payload htype _ =>
      have hthere : type < m.heap.classes.size := by
        rcases htype with hbuiltin | hfound
        · exact Nat.lt_of_le_of_lt hbuiltin ht.builtin
        · exact hΓ.knows.holds _ hfound
      exact ⟨Nat.le_succ _, Nat.le_succ _, .inr ⟨type, payload, hthere, rfl⟩⟩
    | callable c => exact .of_same (Nat.le_succ _) (Nat.le_succ _) rfl
  | newScope => exact .of_same (hone _ _) (Nat.le_succ _) rfl
  | newInstance type =>
    have hthere := (hm.linked.root.classAt hm.linked.heap type).1
    exact ⟨hone _ _, Nat.le_succ _, .inr ⟨_, _, hthere, rfl⟩⟩
  | newOverload => exact .of_same (Nat.le_succ _) (Nat.le_succ _) rfl
  | newClass => exact .of_same (hone _ _) (hone _ _) rfl
  | flatten c hn _ _ =>
    refine .of_same (m.heap.flatten_scopes_size c) ?_ (m.heap.flatten_objects c)
    by_cases hs : (m.heap.classAt c).supers = []
    · dsimp only
      rw [Heap.flatten_of_supers_nil hs]
      omega
    · exact Nat.le_of_eq (Heap.flatten_takesOver hm.linked.heap hn.lt hs).classes
  | «export» =>
    refine .of_same ?_ (hone _ _) rfl
    exact Nat.le_trans (Nat.le_of_eq size_modify) (hone _ _)

namespace Moves

section

variable (hmove : m.Moves m') (ht : m.heap.Typed)
variable {o : ObjectId}

include hmove ht

theorem makes : m.Makes m' :=
  hmove.step.makes hmove.before ht

variable {i : Item}

theorem has (hi : m.heap.Has i) : m'.heap.Has i := by
  have hgrows := hmove.extend.grows
  cases i with
  | scope s => exact Nat.lt_of_lt_of_le hi hgrows.scopes
  | type c => exact Nat.lt_of_lt_of_le hi hgrows.classes
  | object o =>
    change o < m'.heap.objects.size
    rcases (hmove.makes ht).objects with ⟨hsize, _⟩ | ⟨_, _, _, hpush⟩
    · rw [hsize]
      exact hi
    · rw [hpush, size_push]
      exact Nat.lt_succ_of_lt hi

theorem objectType (ho : o < m.heap.objects.size) :
    (m'.heap.objectAt o).type = (m.heap.objectAt o).type := by
  rcases (hmove.makes ht).objects with ⟨_, hsame⟩ | ⟨type, payload, _, hpush⟩
  · exact hsame o
  · unfold Heap.objectAt
    rw [hpush, getD_push_of_lt ho]

theorem newObject (hold : ¬ o < m.heap.objects.size) (hnew : o < m'.heap.objects.size) :
    (m'.heap.objectAt o).type < m.heap.classes.size := by
  rcases (hmove.makes ht).objects with ⟨hsize, _⟩ | ⟨type, payload, hthere, hpush⟩
  · grind
  · rw [hpush, size_push] at hnew
    obtain rfl : o = m.heap.objects.size :=
      Nat.le_antisymm (Nat.le_of_lt_succ hnew) (Nat.le_of_not_lt hold)
    unfold Heap.objectAt
    rw [hpush, getD_push_size]
    exact hthere

theorem typed : m'.heap.Typed := by
  have hclasses := hmove.extend.grows.classes
  refine ⟨Nat.lt_of_lt_of_le ht.builtin hclasses, fun o ho => Nat.lt_of_lt_of_le ?_ hclasses⟩
  by_cases hold : o < m.heap.objects.size
  · rw [hmove.objectType ht hold]
    exact ht.objects o hold
  · exact hmove.newObject ht hold ho

variable {j : Item}

theorem refers_before (hi : m.heap.Has i) (hr : m'.heap.Refers i j) : m.heap.Refers i j := by
  have hgrows := hmove.extend.grows
  cases hr with
  | @parent s p hp => exact .parent ((hgrows.parent s hi).symm.trans hp)
  | @closure s c receiver hk => exact .closure ((hgrows.kind s hi).symm.trans hk)
  | @super c p hp => exact .super (hmove.extend.supers c hi ▸ hp)
  | @«class» o _ =>
    rw [hmove.objectType ht hi]
    exact .class hi
  | @classScope o _ =>
    rw [hmove.objectType ht hi, hgrows.classScope _ (ht.objects o hi)]
    exact .classScope hi

theorem refers_old (hi : ¬ m.heap.Has i) (hr : m'.heap.Refers i j) : m.heap.Has j := by
  have hmade := hmove.makes ht
  have hordered := hmove.after.linked.heap.ordered hmove.after.owned.heap
  -- At most one scope and one class is new, so what is older than it is not.
  have hscope {s t : ScopeId} (hs : ¬ s < m.heap.scopes.size)
      (hr : m'.heap.Refers (.scope s) (.scope t)) : t < m.heap.scopes.size := by
    have hthere : s < m.heap.scopes.size + 1 := Nat.lt_of_lt_of_le hr.has hmade.scopes
    exact Nat.lt_of_lt_of_le (hordered.scopes hr) (Nat.le_of_lt_succ hthere)
  cases hr with
  | parent hp => exact hscope hi (.parent hp)
  | closure hk => exact hscope hi (.closure hk)
  | @super c p hp =>
    have hthere : c < m.heap.classes.size + 1 :=
      Nat.lt_of_lt_of_le (Heap.Refers.super hp).has hmade.classes
    exact Nat.lt_of_lt_of_le (hordered.classes (.super hp)) (Nat.le_of_lt_succ hthere)
  | «class» ho => exact hmove.newObject ht hi ho
  | classScope ho =>
    have hthere := hmove.newObject ht hi ho
    rw [hmove.extend.grows.classScope _ hthere]
    exact (hmove.before.linked.heap.classes _ hthere).scope

end

end Moves

/-! ## Histories -/

namespace Runs

theorem typed (hrun : m.Runs m') (ht : m.heap.Typed) : m'.heap.Typed :=
  hrun.keeps (I := fun m => m.heap.Typed) (fun _ _ hmove => hmove.typed) ht

theorem refers_before (hrun : m.Runs m') (ht : m.heap.Typed) (hi : m.heap.Has i)
    (hr : m'.heap.Refers i j) : m.heap.Refers i j := by
  induction hrun with
  | refl => exact hr
  | @tail b c hfirst hlast ih =>
    have htyped := Runs.typed hfirst ht
    have hthere : b.heap.Has i := by
      refine (Runs.keeps (I := fun m => m.heap.Typed ∧ m.heap.Has i) (fun _ _ hmove hk => ?_)
        hfirst ⟨ht, hi⟩).2
      exact ⟨hmove.typed hk.1, hmove.has hk.1 hk.2⟩
    exact ih (hlast.refers_before htyped hthere hr)

theorem exists_move {P : Machine → Prop} (hrun : m.Runs m') (hstart : ¬ P m) (hend : P m') :
    ∃ m₁ m₂, m.Runs m₁ ∧ m₁.Moves m₂ ∧ m₂.Runs m' ∧ ¬ P m₁ ∧ P m₂ := by
  induction hrun with
  | refl => exact absurd hend hstart
  | @tail b c hfirst hlast ih =>
    by_cases hb : P b
    · obtain ⟨m₁, m₂, hbefore, hmove, hafter, hnot, hso⟩ := ih hb
      exact ⟨m₁, m₂, hbefore, hmove, hafter.trans (.single hlast), hnot, hso⟩
    · exact ⟨b, c, hfirst, hlast, .refl, hb, hend⟩

end Runs

def IsNew (m : Machine) : Prop :=
  ∃ config disk hosts, m = Machine.initial config disk hosts

/-- An item was made by a step before which another was there. What is built in has been made in the
    order of its numbers. -/
inductive MadeAfter (m : Machine) : Item → Item → Prop
  | step {i j : Item} {m₀ m₁ m₂ : Machine} (hnew : m₀.IsNew) (hbefore : m₀.Runs m₁)
      (hmove : m₁.Moves m₂) (hafter : m₂.Runs m) (hmissing : ¬ m₁.heap.Has i)
      (hmade : m₂.heap.Has i) (hthere : m₁.heap.Has j) : m.MadeAfter i j
  | scopes {s t : ScopeId} {m₀ : Machine} (hnew : m₀.IsNew) (hrun : m₀.Runs m)
      (hbuiltin : m₀.heap.Has (.scope s)) (hlt : t < s) : m.MadeAfter (.scope s) (.scope t)
  | classes {c p : ClassId} {m₀ : Machine} (hnew : m₀.IsNew) (hrun : m₀.Runs m)
      (hbuiltin : m₀.heap.Has (.type c)) (hlt : p < c) : m.MadeAfter (.type c) (.type p)

end Machine

theorem Machine.initial_objects (config : Config) (disk : Disk) (hosts : List HostClass) :
    (Machine.initial config disk hosts).heap.objects = #[] := by
  have hworld : World.heap.2.objects = #[] := eq_empty_of_size_eq_zero (by decide +kernel)
  unfold Machine.initial
  generalize World.heap = world at hworld ⊢
  -- A class of the host is made, takes over members, and gets a name.
  refine List.foldlRecOn (motive := fun h : Heap => h.objects = #[]) hosts _ hworld
    fun h hh kind _ => ?_
  exact (Heap.flatten_objects _ _).trans hh

theorem Machine.initial_typed (config : Config) (disk : Disk) (hosts : List HostClass) :
    (Machine.initial config disk hosts).heap.Typed := by
  refine ⟨(initial_named config disk hosts (by decide)).lt, fun o ho => ?_⟩
  rw [initial_objects] at ho
  exact absurd ho (Nat.not_lt_zero o)

theorem InSession.runs_from_new (hm : InSession m) : ∃ m₀ : Machine, m₀.IsNew ∧ m₀.Runs m := by
  obtain ⟨config, disk, hosts, S, hrun⟩ := hm.sealed
  exact ⟨_, ⟨config, disk, hosts, rfl⟩, hrun.runs⟩

theorem Machine.Runs.madeAfter {m₀ : Machine} (hrun : m₀.Runs m) (hnew : m₀.IsNew)
    (ho : m.heap.Ordered) (hr : m.heap.Refers i j) : m.MadeAfter i j := by
  have ht : m₀.heap.Typed := by
    obtain ⟨config, disk, hosts, rfl⟩ := hnew
    exact initial_typed config disk hosts
  by_cases hi : m₀.heap.Has i
  · -- It is built in, and is no object.
    cases hr with
    | parent hp => exact .scopes hnew hrun hi (ho.scopes (.parent hp))
    | closure hk => exact .scopes hnew hrun hi (ho.scopes (.closure hk))
    | super hp => exact .classes hnew hrun hi (ho.classes (.super hp))
    | @«class» o _ | @classScope o _ =>
      obtain ⟨config, disk, hosts, rfl⟩ := hnew
      have hnone : o < (Machine.initial config disk hosts).heap.objects.size := hi
      rw [initial_objects] at hnone
      exact absurd hnone (Nat.not_lt_zero o)
  · obtain ⟨m₁, m₂, hbefore, hmove, hafter, hmissing, hmade⟩ :=
      hrun.exists_move (P := fun m => m.heap.Has i) hi hr.has
    have ht₁ := hbefore.typed ht
    have hthen := hafter.refers_before (hmove.typed ht₁) hmade hr
    exact .step hnew hbefore hmove hafter hmissing hmade (hmove.refers_old ht₁ hmissing hthen)

/-! ## Following links -/

namespace Heap

variable {start : Option ScopeId} {passed : List ScopeId} {α : Type} {find : ScopeId → Option α}
variable {result : Option α} {cs : List ClassId} {scopes : List ScopeId}

/-- The scopes on the way when a link is followed to the end. -/
inductive Walks (h : Heap) (link : Scope → Option ScopeId) : Option ScopeId → List ScopeId → Prop
  | stop : h.Walks link none []
  | pass {s : ScopeId} {rest : List ScopeId} (hrest : h.Walks link (link (h.scopeAt s)) rest) :
      h.Walks link (some s) (s :: rest)

/-- What is found when a link is followed until something is found. -/
inductive Seeks {α : Type} (h : Heap) (link : Scope → Option ScopeId) (find : ScopeId → Option α) :
    Option ScopeId → Option α → Prop
  | stop : h.Seeks link find none none
  | found {s : ScopeId} {a : α} (hfound : find s = some a) : h.Seeks link find (some s) (some a)
  | pass {s : ScopeId} {result : Option α} (hnone : find s = none)
      (hrest : h.Seeks link find (link (h.scopeAt s)) result) : h.Seeks link find (some s) result

def binding? (h : Heap) (name : String) (s : ScopeId) : Option (Binding × ScopeId) :=
  ((h.scopeAt s).local? name).map (·, s)

/-- What a name stands for from the first of some scopes that finds it: along all parents, and then
    from the defining scopes of the frames among them. -/
inductive Searches (h : Heap) (name : String) :
    List ScopeId → Option (Binding × ScopeId) → Prop
  | nil : h.Searches name [] none
  | here {s : ScopeId} {others : List ScopeId} {found : Binding × ScopeId}
      (hfound : h.Seeks Scope.parent (h.binding? name) (some s) (some found)) :
      h.Searches name (s :: others) (some found)
  | closures {s : ScopeId} {others passed : List ScopeId} {found : Binding × ScopeId}
      (hnone : h.Seeks Scope.parent (h.binding? name) (some s) none)
      (hpassed : h.Walks Scope.parent (some s) passed)
      (hfound : h.Searches name (h.closuresOf passed) (some found)) :
      h.Searches name (s :: others) (some found)
  | next {s : ScopeId} {others passed : List ScopeId} {result : Option (Binding × ScopeId)}
      (hnone : h.Seeks Scope.parent (h.binding? name) (some s) none)
      (hpassed : h.Walks Scope.parent (some s) passed)
      (hclosures : h.Searches name (h.closuresOf passed) none)
      (hothers : h.Searches name others result) : h.Searches name (s :: others) result

/-- Whether an ancestor is among some classes and those above them. -/
inductive Judges (h : Heap) (ancestor : ClassId) : List ClassId → Bool → Prop
  | nil : h.Judges ancestor [] false
  | same {others : List ClassId} : h.Judges ancestor (ancestor :: others) true
  | above {c : ClassId} {others : List ClassId} (hne : c ≠ ancestor)
      (hsupers : h.Judges ancestor (h.classAt c).supers true) :
      h.Judges ancestor (c :: others) true
  | next {c : ClassId} {others : List ClassId} {answer : Bool} (hne : c ≠ ancestor)
      (hsupers : h.Judges ancestor (h.classAt c).supers false)
      (hothers : h.Judges ancestor others answer) : h.Judges ancestor (c :: others) answer

def bodyOf? (s : Scope) : Option ClassId :=
  match s.kind with
  | .classBody c => some c
  | _ => none

/-- The loops and recursions by which a heap is looked through come to an end, each with one result.
    -/
structure Terminating (h : Heap) : Prop where
  lookup : ∀ s name result, h.Searches name [s] result ↔ result = h.lookup s name
  containsScope : ∀ s ancestor result,
    h.Seeks Scope.lexicalParent (Option.guard (· == ancestor)) (some s) result ↔
      result = if (h.lexicalChain s).contains ancestor then some ancestor else none
  lexicalClasses : ∀ s classes,
    (∃ passed, h.Walks Scope.lexicalParent (some s) passed ∧
      classes = passed.filterMap fun t => (bodyOf? (h.scopeAt t)).filter h.held) ↔
    classes = h.lexicalClasses s
  currentObject : ∀ s result,
    h.Seeks Scope.parent (fun t => instanceOf? (h.scopeAt t)) (some s) result ↔
      result = h.currentObject s
  inherits : ∀ c ancestor answer, h.Judges ancestor [c] answer ↔ answer = h.inherits c ancestor

variable {h : Heap} {link : Scope → Option ScopeId}

theorem follow_walks (hlink : ∀ s t, link (h.scopeAt s) = some t → t < s) (n : Nat) :
    ∀ s, s < n → h.Walks link (some s) (h.follow link n (some s)) := by
  induction n with
  | zero => omega
  | succ n ih =>
    intro s hs
    refine .pass ?_
    cases hnext : link (h.scopeAt s) with
    | none => cases n <;> exact .stop
    | some t => grind

theorem Walks.unique {passed' : List ScopeId}
    (hw : h.Walks link start passed) (hw' : h.Walks link start passed') : passed' = passed := by
  induction hw generalizing passed' with
  | stop => cases hw'; rfl
  | pass _ ih =>
    cases hw' with
    | pass hrest => rw [ih hrest]

theorem Walks.seeks (hw : h.Walks link start passed) (find : ScopeId → Option α) :
    h.Seeks link find start (passed.findSome? find) := by
  induction hw with
  | stop => exact .stop
  | @pass s rest _ ih =>
    rw [findSome?_cons]
    cases hfind : find s with
    | some a => exact .found hfind
    | none => exact .pass hfind ih

theorem Seeks.unique {result' : Option α} (hs : h.Seeks link find start result)
    (hs' : h.Seeks link find start result') : result' = result := by
  induction hs generalizing result' with
  | stop => cases hs'; rfl
  | found hfound =>
    cases hs' with
    | found hfound' => exact hfound'.symm.trans hfound
    | pass hnone _ => cases hnone.symm.trans hfound
  | pass hnone _ ih =>
    cases hs' with
    | found hfound => cases hnone.symm.trans hfound
    | pass _ hrest => exact ih hrest

theorem Walks.seeks_iff (hw : h.Walks link start passed) :
    h.Seeks link find start result ↔ result = passed.findSome? find :=
  ⟨(hw.seeks find).unique, fun hresult => hresult ▸ hw.seeks find⟩

theorem findAlong_eq_findSome? (h : Heap) (name : String) (scopes : List ScopeId) :
    h.findAlong name scopes = scopes.findSome? (h.binding? name) := by
  induction scopes with
  | nil => rfl
  | cons s rest ih =>
    rw [findAlong, findSome?_cons, binding?, ih]
    cases (h.scopeAt s).local? name <;> rfl

namespace Ordered

variable (ho : h.Ordered)

include ho

theorem walks_chain (s : ScopeId) : h.Walks Scope.parent (some s) (h.chain s) :=
  follow_walks (fun _ _ hp => ho.scopes (.parent hp)) _ s (Nat.lt_succ_self s)

theorem walks_lexicalChain (s : ScopeId) :
    h.Walks Scope.lexicalParent (some s) (h.lexicalChain s) := by
  refine follow_walks (fun s t hp => ?_) _ s (Nat.lt_succ_self s)
  unfold Scope.lexicalParent at hp
  split at hp
  · next closure receiver hk =>
    cases hp
    exact ho.scopes (.closure hk)
  · exact ho.scopes (.parent hp)

end Ordered

variable {modules : List (String × ClassId)}

theorem Owned.inherits_eq (ho : h.Owned modules) (c ancestor : ClassId) : h.inherits c ancestor =
      (c == ancestor || (h.classAt c).supers.any (h.inherits · ancestor)) := by
  rw [Bool.eq_iff_iff, inherits_iff ho, Bool.or_eq_true, beq_iff_eq, List.any_eq_true]
  constructor
  · intro hd
    cases hd with
    | self => exact .inl rfl
    | super hp hd => exact .inr ⟨_, hp, (inherits_iff ho).mpr hd⟩
  · rintro (rfl | ⟨p, hp, hd⟩)
    · exact .self c
    · exact .super hp ((inherits_iff ho).mp hd)

theorem judges_of_each (h : Heap) (ancestor : ClassId)
    (hcs : ∀ c ∈ cs, ∀ others answer, h.Judges ancestor others answer →
      h.Judges ancestor (c :: others) (h.inherits c ancestor || answer)) :
    h.Judges ancestor cs (cs.any (h.inherits · ancestor)) := by
  induction cs with
  | nil => exact .nil
  | cons c cs ih =>
    have hothers := ih fun d hd => hcs d (mem_cons_of_mem c hd)
    exact hcs c mem_cons_self cs _ hothers

theorem Owned.judges_cons (ho : h.Owned modules)
    (ancestor c : ClassId) : ∀ others answer, h.Judges ancestor others answer →
      h.Judges ancestor (c :: others) (h.inherits c ancestor || answer) := by
  induction c using Nat.strongRecOn with
  | ind c ih =>
    intro others answer hothers
    have hsupers := judges_of_each h ancestor
      fun p hp => ih p (ho.supers c p hp).1
    rw [ho.inherits_eq c ancestor]
    by_cases hsame : c = ancestor
    · subst hsame
      rw [beq_self_eq_true]
      exact .same
    · rw [beq_false_of_ne hsame]
      generalize (h.classAt c).supers.any (h.inherits · ancestor) = o at hsupers ⊢
      cases o with
      | true => exact .above hsame hsupers
      | false => exact .next hsame hsupers hothers

theorem Judges.unique {ancestor : ClassId} {answer answer' : Bool}
    (hj : h.Judges ancestor cs answer) (hj' : h.Judges ancestor cs answer') : answer' = answer := by
  induction hj generalizing answer' with
  | nil => cases hj'; rfl
  | same =>
    cases hj' with
    | same => rfl
    | above hne _ | next hne _ _ => exact absurd rfl hne
  | above hne _ ih =>
    cases hj' with
    | same | above => rfl
    | next _ hsupers _ => cases ih hsupers
  | next hne _ _ ihsupers ihothers =>
    cases hj' with
    | same => exact absurd rfl hne
    | above _ hsupers => cases ihsupers hsupers
    | next _ _ hothers => exact ihothers hothers

theorem Searches.unique {name : String}
    {result result' : Option (Binding × ScopeId)} (hs : h.Searches name scopes result)
    (hs' : h.Searches name scopes result') : result' = result := by
  induction hs generalizing result' with
  | nil => cases hs'; rfl
  | here hfound =>
    cases hs' with
    | here hfound' => exact hfound.unique hfound'
    | closures hnone _ _ | next hnone _ _ _ => cases hfound.unique hnone
  | closures hnone hpassed _ ih =>
    cases hs' with
    | here hfound => cases hnone.unique hfound
    | closures _ hpassed' hfound =>
      rw [hpassed.unique hpassed'] at hfound
      exact ih hfound
    | next _ hpassed' hclosures _ =>
      rw [hpassed.unique hpassed'] at hclosures
      cases ih hclosures
  | next hnone hpassed _ _ ihclosures ihothers =>
    cases hs' with
    | here hfound => cases hnone.unique hfound
    | closures _ hpassed' hfound =>
      rw [hpassed.unique hpassed'] at hfound
      cases ihclosures hfound
    | next _ _ _ hothers => exact ihothers hothers

theorem searches_of_each (h : Heap) (name : String)
    (hscopes : ∀ s ∈ scopes, ∀ others result, h.Searches name others result →
      h.Searches name (s :: others) ((h.lookup s name).or result)) :
    h.Searches name scopes (scopes.findSome? (h.lookup · name)) := by
  induction scopes with
  | nil => exact .nil
  | cons s rest ih =>
    have hothers := ih fun t ht => hscopes t (mem_cons_of_mem s ht)
    have hall := hscopes s mem_cons_self rest _ hothers
    rw [findSome?_cons]
    cases hfound : h.lookup s name <;> rw [hfound] at hall <;> exact hall

theorem Linked.searches_cons (hl : h.Linked) (ho : h.Ordered) (name : String) (s : ScopeId) :
    ∀ others result, h.Searches name others result →
      h.Searches name (s :: others) ((h.lookup s name).or result) := by
  induction s using Nat.strongRecOn with
  | ind s ih =>
    intro others result hothers
    have hpassed := ho.walks_chain s
    have hclosures := searches_of_each h name
      fun c hc => ih c (hl.lt_of_mem_closuresOf hc)
    have hseeks := hpassed.seeks (h.binding? name)
    rw [← findAlong_eq_findSome?] at hseeks
    rw [hl.lookup_eq s name]
    generalize h.findAlong name (h.chain s) = o at hseeks ⊢
    cases o with
    | some found => exact .here hseeks
    | none =>
      generalize (h.closuresOf (h.chain s)).findSome? (h.lookup · name) = o at hclosures ⊢
      cases o with
      | some found => exact .closures hseeks hpassed hclosures
      | none => exact .next hseeks hpassed hclosures hothers

theorem findSome?_guard_eq (scopes : List ScopeId) (ancestor : ScopeId) :
    scopes.findSome? (Option.guard (· == ancestor)) =
      if scopes.contains ancestor then some ancestor else none := by
  induction scopes with
  | nil => rfl
  | cons => grind

theorem Linked.terminating (hl : h.Linked) (howned : h.Owned modules) : h.Terminating := by
  have ho := hl.ordered howned
  exact {
    lookup s name result := by
      have hsearch := hl.searches_cons ho name s [] none .nil
      rw [Option.or_none] at hsearch
      exact ⟨hsearch.unique, fun hresult => hresult ▸ hsearch⟩
    containsScope s ancestor result := by
      rw [(ho.walks_lexicalChain s).seeks_iff, findSome?_guard_eq]
    lexicalClasses s classes := by
      constructor
      · rintro ⟨passed, hpassed, rfl⟩
        rw [(ho.walks_lexicalChain s).unique hpassed]
        rfl
      · rintro rfl
        exact ⟨_, ho.walks_lexicalChain s, rfl⟩
    currentObject s result := (ho.walks_chain s).seeks_iff
    inherits c ancestor answer := by
      have hjudges := howned.judges_cons ancestor c [] false .nil
      rw [Bool.or_false] at hjudges
      exact ⟨hjudges.unique, fun hanswer => hanswer ▸ hjudges⟩
  }

end Heap

/-- At every step of every session everything was made after what it refers to, and looking up,
    looking for what is around, and comparing classes come to an end. -/
theorem InSession.links_older {m₀ m : Machine} (hm : InSession m₀) (hrun : m₀.Runs m) :
    (∀ i j, m.heap.Refers i j → m.MadeAfter i j) ∧
      (WellFounded fun j i => m.heap.Refers i j) ∧ m.heap.Terminating := by
  obtain ⟨new, hnew, hbefore⟩ := hm.runs_from_new
  have hsteady := hrun.steady hm.steady
  have hordered := hsteady.linked.heap.ordered hsteady.owned.heap
  exact ⟨fun _ _ hr => (hbefore.trans hrun).madeAfter hnew hordered hr, hordered.wellFounded,
    hsteady.linked.heap.terminating hsteady.owned.heap⟩

theorem Machine.shadowed_links_older :
    InSession Machine.shadowed ∧
      Machine.shadowed.MadeAfter (.scope 58) (.scope (Machine.shadowed.heap.classAt 50).scope) ∧
      Machine.shadowed.MadeAfter (.object 0) (.type (Machine.shadowed.heap.objectAt 0).type) ∧
      ∃ binding, Machine.shadowed.heap.Searches "helper" [58] (some (binding, 54)) := by
  have hsession : InSession Machine.shadowed :=
    .running (.initial Config.standard default []) Machine.inMethod 40 Request.shadowing
  have hobject : 0 < Machine.shadowed.heap.objects.size := by decide +kernel
  obtain ⟨⟨hframe, -, -, hlookup, -⟩, -⟩ := shadowed_lookup
  have holder := InSession.links_older hsession .refl
  generalize Machine.shadowed = m at *
  obtain ⟨hmade, -, hends⟩ := holder
  refine ⟨hsession, hmade _ _ (.closure hframe.kind), hmade _ _ (.class hobject), ?_⟩
  cases hfound : m.heap.lookup 58 "helper" with
  | none =>
    rw [hfound] at hlookup
    cases hlookup
  | some found =>
    rw [hfound] at hlookup
    obtain ⟨binding, s⟩ := found
    cases hlookup
    exact ⟨binding, (hends.lookup 58 "helper" _).mpr hfound.symm⟩

end ClassScript
