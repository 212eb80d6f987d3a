import ClassScript.Proofs.Computation
import ClassScript.Proofs.Law
import ClassScript.Run.Invocation

/-!
# What Computations Are Built From

Every piece of the evaluator is put together from the steps that `Built` lists, so a fact about all
runs is proved once for each step, and not for each construct of the language. It keeps a list of
facts about the heap that are known and stay true: what is entered or linked to is known to exist,
and names are put only into scopes that are known to be there for it.

Steps that run code ask that it keeps to a rule.
-/

namespace ClassScript

open List

def Machine.withLimit (m : Machine) (limit : Nat) : Machine :=
  { m with config := { m.config with maxDepth := limit } }

/-- What may be known about a heap: that something exists, where the members of a
    class and the fields of an instance are, and what classes and scopes are for. -/
inductive Fact where
  | scope (s : ScopeId)
  | type (c : ClassId)
  | membersIn (s : ScopeId)
  | members (c : ClassId) (s : ScopeId)
  | fields (o : ObjectId) (s : ScopeId)
  | fieldsIn (s : ScopeId)
  | declared (c : ClassId)
  | module (c : ClassId)
  | named (c : ClassId)
  | opened (s : ScopeId)
  | overload (id : OverloadId) (f : Overload)
  | exported (name : String) (family : List OverloadId)
  | created (o : ObjectId)
  /-- Names may be put into the scope. -/
  | own (s : ScopeId)
  /-- Names may be put into the current scope. -/
  | here
  /-- Names of classes may be put into the scope. -/
  | naming (s : ScopeId)
  /-- Names of classes may be put into the current scope. -/
  | inside
  /-- Modules may be entered and remembered. -/
  | importing

/-- What is known of a function: its body stands in a scope, and if it is one of a
    class, in the scope of that class. -/
def Overload.facts (f : Overload) : List Fact :=
  match f.body, f.owner with
  | .native _, _ => []
  | .script _ closure, none => [.scope closure]
  | .script _ closure, some c => [.scope closure, .membersIn closure, .members c closure]

def Stmt.isDeclaration : Stmt → Bool
  | .variable _ _ | .function _ | .class _ | .enum _ | .importModule _ _ _ => true
  | _ => false

def Stmt.needs : Stmt → List Fact
  | .variable _ _ | .function _ | .importModule _ _ _ => [.here]
  | .class _ | .enum _ => [.inside]
  | _ => []

theorem Stmt.needs_subset (stmt : Stmt) {Γ : List Fact} (hΓ : [.here, .inside] ⊆ Γ) :
    ∀ k ∈ stmt.needs, k ∈ Γ := by
  have hneeds : stmt.needs ⊆ [.here, .inside] := by
    unfold needs
    split <;> simp
  exact fun k hk => hΓ (hneeds hk)

theorem Stmt.needs_of_not_declaration {stmt : Stmt} (h : stmt.isDeclaration = false) :
    stmt.needs = [] := by
  cases stmt <;> first | rfl | cases h

inductive Placing (Γ : List Fact) (s : ScopeId) : Option ClassId → Prop
  | free (ho : .own s ∈ Γ) : Placing Γ s none
  | member (c : ClassId) (hc : .declared c ∈ Γ) (hs : .members c s ∈ Γ) : Placing Γ s (some c)
  | field (o : ObjectId) (c : ClassId) (hs : .fields o s ∈ Γ) (ho : .created o ∈ Γ) :
      Placing Γ s (some c)

def Scope.hasConstant (s : Scope) (name : String) : Bool :=
  (s.vars.find? name).any (·.isConst)

def Scope.assign (s : Scope) (name : String) (value : Value) : Scope :=
  match s.vars.find? name with
  | some v => { s with vars := s.vars.insert name (v.withValue value) }
  | none => s

def Scope.copy (s : Scope) (name : String) (source : Scope) : Scope :=
  match source.vars.find? name with
  | some v => { s with vars := s.vars.insert name v }
  | none => s

/-- How a scope gets a variable. What is declared does not displace a variable, and a parameter or
    what a loop runs over does not displace a constant. -/
inductive Putting (Γ : List Fact) (s : ScopeId) (name : String) :
    Variable → (Scope → Bool) → Prop
  | declared (v : Variable) (hs : .own s ∈ Γ ∨ ∃ c, .members c s ∈ Γ) :
      Putting Γ s name v fun sc => sc.vars.contains name
  | bound (value : Value) (ho : .own s ∈ Γ) :
      Putting Γ s name (.plain value) fun sc => sc.hasConstant name
  | field (o : ObjectId) (v : Variable) (hs : .fields o s ∈ Γ) (hv : v.isConst = false) :
      Putting Γ s name v fun _ => false

/-- When a slot of a scope does not get a value: if it is a constant, which no field is. -/
inductive Assigning (Γ : List Fact) (s : ScopeId) (name : String) : (Scope → Bool) → Prop
  | checked : Assigning Γ s name fun sc => sc.hasConstant name
  | field (hs : .fieldsIn s ∈ Γ) : Assigning Γ s name fun _ => false

def Class.addField (k : Class) (f : FieldInit) : Class :=
  { k with
    fields := if k.isStatic || k.fields.any (·.name == f.name) then k.fields else k.fields ++ [f] }

/-- The changes of the heap: names of a scope, fields of a class, and contents of an object. Links
    are never changed. -/
inductive Write (C : Law) (Γ : List Fact) : (Heap → Heap) → Prop
  | variable (s : ScopeId) (name : String) (v : Variable) (kept : Scope → Bool)
      (hv : Placing Γ s v.owner) (hp : Putting Γ s name v kept) :
      Write C Γ fun h => h.updateScope s fun sc =>
        if kept sc then sc else { sc with vars := sc.vars.insert name v }
  | slot (s : ScopeId) (name : String) (value : Value) (kept : Scope → Bool)
      (hp : Assigning Γ s name kept) :
      Write C Γ fun h => h.updateScope s fun sc => if kept sc then sc else sc.assign name value
  | copy (s : ScopeId) (name : String) (c : ClassId) (hc : .module c ∈ Γ) (ho : .own s ∈ Γ) :
      Write C Γ fun h => h.updateScope s (·.copy name (h.scopeAt (h.classAt c).scope))
  | overload (s : ScopeId) (id : OverloadId) (f : Overload) (hf : .overload id f ∈ Γ)
      (hs : Placing Γ s f.owner) :
      Write C Γ fun h => h.updateScope s (Scope.addOverload h id)
  | family (s : ScopeId) (name : String) (overloads : List OverloadId)
      (hf : .exported name overloads ∈ Γ) (ho : .own s ∈ Γ) :
      Write C Γ fun h => h.updateScope s fun sc =>
        { sc with functions := sc.functions.insert name overloads }
  | class (s : ScopeId) (name : String) (c : ClassId) (hc : .named c ∈ Γ) (ho : .naming s ∈ Γ) :
      Write C Γ fun h => h.updateScope s fun sc =>
        { sc with classes := sc.classes.insert name c }
  | field (f : FieldInit) (hd : .declared f.owner ∈ Γ) (hf : C.field f) :
      Write C Γ fun h => h.updateClass f.owner (·.addField f)
  | contents (id : ObjectId) (f : Payload → Payload) : Write C Γ fun h => h.updatePayload id f

def Existing (Γ : List Fact) (c : ClassId) : Prop :=
  c ≤ ClassId.type ∨ .type c ∈ Γ

/-- The class of what is no instance is the built-in one for what it is made of. -/
inductive Payload.Fits : Payload → ClassId → Prop
  | list {items : Array Value} : Fits (.list items) ClassId.list
  | dict {entries : Entries} : Fits (.dict entries) ClassId.dict
  | range {r : Range} : Fits (.range r) ClassId.range
  | enumerator {e : Enumerator} : Fits (.enumerator e) ClassId.enumerator
  | host {o : HostObject} {c : ClassId} : Fits (.host o) c

inductive Creation (Γ : List Fact) : (Heap → Nat × Heap) → Prop
  | object (type : ClassId) (payload : Payload) (ht : Existing Γ type) (hp : payload.Fits type) :
      Creation Γ fun h => h.newObject type payload
  | callable (c : Callable) : Creation Γ fun h => h.newCallable c

inductive Opening (Γ : List Fact) : ScopeKind → Option ScopeId → Prop
  | module (globals : ScopeId) (hg : .scope globals ∈ Γ) : Opening Γ .module (some globals)
  | block (outer : ScopeId) (ho : .scope outer ∈ Γ) : Opening Γ .block (some outer)
  | function (closure : ScopeId) (hc : .scope closure ∈ Γ) :
      Opening Γ (.frame closure none) (some closure)
  | method (closure : ScopeId) (object : ObjectId) (fields : ScopeId)
      (hc : .scope closure ∈ Γ) (hm : .membersIn closure ∈ Γ) (hs : .scope fields ∈ Γ)
      (hf : .fields object fields ∈ Γ) :
      Opening Γ (.frame closure (some object)) (some fields)

def lookupFacts : Option (Binding × ScopeId) → List Fact
  | some (.type c, _) => [.named c]
  | _ => []

def exportFacts (name : String) : Option Binding → List Fact
  | some (.type c) => [.named c]
  | some (.family family) => [.exported name family]
  | _ => []

def hostFacts (c : ClassId) (info : Class) : List Fact :=
  info.host.toList.map fun _ => .type c

def moduleFacts : Option ClassId → List Fact
  | some c => [.module c, .named c]
  | none => []

inductive Finding (C : Law) (Γ : List Fact) :
    {α : Type} → (Heap → α) → (α → List Fact) → (α → Prop) → Prop
  | classScope (c : ClassId) :
      Finding C Γ (fun h => (h.classAt c).scope) (fun s => [.scope s, .membersIn s]) fun _ => True
  | type (c : ClassId) (hc : .type c ∈ Γ) (hd : .declared c ∈ Γ) :
      Finding C Γ (fun h => h.classAt c) (fun info =>
        [.scope info.scope, .membersIn info.scope, .members c info.scope, .naming info.scope])
        fun _ => True
  | bodyScope (c : ClassId) (hc : .type c ∈ Γ) (hd : .declared c ∈ Γ) :
      Finding C Γ (fun h => (h.classAt c).scope) (fun s =>
        [.scope s, .membersIn s, .members c s, .naming s]) fun _ => True
  | fields (c : ClassId) :
      Finding C Γ (fun h => (h.classAt c).fields) (fun _ => []) fun fields =>
        ∀ f ∈ fields, C.field f
  | overload (id : OverloadId) :
      Finding C Γ (fun h => h.overloadAt id) Overload.facts C.overload
  | host (c : ClassId) :
      Finding C Γ (fun h => h.classAt c) (hostFacts c) fun _ => True
  | fieldScope (o : ObjectId) :
      Finding C Γ (fun h => h.fieldScope? (.object o)) (fun found =>
        found.toList.flatMap fun s => [.scope s, .fields o s]) fun _ => True
  | slots (v : Value) :
      Finding C Γ (fun h => h.fieldScope? v) (fun found => found.toList.map .fieldsIn) fun _ => True
  | receiver (f : Overload) (r : Option Value) :
      Finding C Γ (fun h => Invocation.boundInstance? h f r) (fun found =>
        found.toList.flatMap fun (o, s) => [.scope s, .fields o s]) fun _ => True
  | name (site : ScopeId) (name : String) :
      Finding C Γ (fun h => h.lookup site name) lookupFacts fun _ => True
  | export (c : ClassId) (name : String) (hc : .module c ∈ Γ) :
      Finding C Γ (fun h => (h.scopeAt (h.classAt c).scope).local? name) (exportFacts name)
        fun _ => True

def Known (Γ : List Fact) (c : ClassId) : Prop :=
  c = ClassId.object ∨ c = ClassId.null ∨ .named c ∈ Γ

def newClassFacts (c : ClassId) : List Fact :=
  [.type c, .declared c, .named c]

/-- Pieces that are built from the steps of the evaluator, given facts and a rule for code. -/
inductive Built (C : Law) : (Γ : List Fact) → {α : Type} → (Level → Eval α) → Prop
  | pure {Γ : List Fact} {α : Type} (a : α) : Built C Γ fun _ => pure a
  | bind {Γ : List Fact} {α β : Type} {x : Level → Eval α} {k : Level → α → Eval β}
      (hx : Built C Γ x) (hk : ∀ a, Built C Γ fun L => k L a) : Built C Γ fun L => x L >>= k L
  | raise {Γ : List Fact} {α : Type} (e : Failure) (he : C.failure e) :
      Built C Γ fun _ => (Eval.raise e : Eval α)
  | ask {Γ : List Fact} {α : Type} (f : Heap → α) : Built C Γ fun _ => Eval.ask f
  | find {Γ : List Fact} {α β : Type} {f : Heap → α} {known : α → List Fact}
      {learned : α → Prop} {k : Level → α → Eval β} (hf : Finding C Γ f known learned)
      (hk : ∀ a, learned a → Built C (known a ++ Γ) fun L => k L a) :
      Built C Γ fun L => Eval.ask f >>= k L
  | read {Γ : List Fact} {α : Type} (f : Machine → α)
      (hf : ∀ m limit, f (m.withLimit limit) = f m) : Built C Γ fun _ => Eval.read f
  | scope {Γ : List Fact} {β : Type} {k : Level → ScopeId → Eval β}
      (hk : ∀ s, Built C (.scope s :: Γ) fun L => k L s) :
      Built C Γ fun L => Eval.scope >>= k L
  | site {Γ : List Fact} {β : Type} {k : Level → ScopeId → Eval β} (hh : .here ∈ Γ)
      (hk : ∀ s, Built C (.scope s :: .own s :: .naming s :: Γ) fun L => k L s) :
      Built C Γ fun L => Eval.scope >>= k L
  | siteInside {Γ : List Fact} {β : Type} {k : Level → ScopeId → Eval β} (hh : .inside ∈ Γ)
      (hk : ∀ s, Built C (.scope s :: .naming s :: Γ) fun L => k L s) :
      Built C Γ fun L => Eval.scope >>= k L
  | disk {Γ : List Fact} {β : Type} {k : Level → Disk → Eval β}
      (hk : ∀ d, C.disk d → Built C Γ fun L => k L d) :
      Built C Γ fun L => Eval.read (·.disk) >>= k L
  | globals {Γ : List Fact} {β : Type} {k : Level → ScopeId → Eval β}
      (hk : ∀ s, Built C (.scope s :: Γ) fun L => k L s) :
      Built C Γ fun L => Eval.read (·.globals) >>= k L
  | modules {Γ : List Fact} {β : Type} {k : Level → Option ClassId → Eval β} (path : String)
      (hk : ∀ found, Built C (moduleFacts found ++ Γ) fun L => k L found) :
      Built C Γ fun L => Eval.read (·.modules.lookup path) >>= k L
  | change {Γ : List Fact} {f : Heap → Heap} (hf : Write C Γ f) :
      Built C Γ fun _ => Eval.change f
  | create {Γ : List Fact} {f : Heap → Nat × Heap} (hf : Creation Γ f) :
      Built C Γ fun _ => Eval.create f
  | newScope {Γ : List Fact} {β : Type} {k : Level → ScopeId → Eval β} (kind : ScopeKind)
      (parent : Option ScopeId) (ho : Opening Γ kind parent)
      (hk : ∀ s, Built C (.scope s :: .opened s :: .own s :: Γ) fun L => k L s) :
      Built C Γ fun L => Eval.create (·.newScope kind parent) >>= k L
  | newInstance {Γ : List Fact} {β : Type} {k : Level → ObjectId → Eval β} (type : ClassId)
      (hk : ∀ o, Built C (.created o :: Γ) fun L => k L o) :
      Built C Γ fun L => Eval.create (·.newInstance type) >>= k L
  | newOverload {Γ : List Fact} {β : Type} {k : Level → OverloadId → Eval β} (f : Overload)
      (hf : ∀ k ∈ f.facts, k ∈ Γ) (hc : C.overload f)
      (hk : ∀ id, Built C (.overload id f :: Γ) fun L => k L id) :
      Built C Γ fun L => Eval.create (·.newOverload f) >>= k L
  | newClass {Γ : List Fact} {β : Type} {k : Level → ClassId → Eval β} (name : String)
      (supers : List ClassId) (isStatic : Bool) (access : Access) (parent : ScopeId)
      (hp : .scope parent ∈ Γ) (hs : ∀ p ∈ supers, Known Γ p)
      (hroot : supers = [] → isStatic = true)
      (hk : ∀ c, Built C (newClassFacts c ++ Γ) fun L => k L c) :
      Built C Γ fun L =>
        Eval.create (·.newClass (Class.fresh name supers isStatic access) (some parent)) >>= k L
  | declare {Γ : List Fact} {k : Level → ClassId → Eval Unit} (name : String)
      (supers : List ClassId) (isStatic : Bool) (access : Access) (parent : ScopeId)
      (hp : .scope parent ∈ Γ) (hs : ∀ p ∈ supers, Known Γ p)
      (hroot : supers = [] → isStatic = true)
      (hk : ∀ c, Built C (newClassFacts c ++ Γ) fun L => k L c) :
      Built C Γ fun L =>
        Eval.create (·.newClass (Class.fresh name supers isStatic access) (some parent)) >>=
          fun c => k L c >>= fun _ => Eval.change (·.flatten c)
  | export {Γ : List Fact} {β : Type} {k : Level → ClassId → Eval β} (path name : String)
      (source parent : ScopeId) (hi : .importing ∈ Γ) (hp : .scope parent ∈ Γ)
      (hs : .opened source ∈ Γ) (hk : ∀ c, Built C (.module c :: .named c :: Γ) fun L => k L c) :
      Built C Γ fun L =>
        Eval.create (·.exportClass name source (some parent)) >>=
          fun c => Import.remember path c >>= fun _ => k L c
  | print {Γ : List Fact} (text : String) : Built C Γ fun _ => Eval.print text
  | mapFailure {Γ : List Fact} {α : Type} {x : Level → Eval α} (f : Failure → Failure)
      (hf : ∀ e, (f e).isFatal = e.isFatal) (hm : ∀ e, (f e).fault? = e.fault?)
      (hx : Built C Γ x) : Built C Γ fun L => Eval.mapFailure f (x L)
  | attempt {Γ : List Fact} {α β : Type} {x : Level → Eval α}
      {k : Level → Except Failure α → Eval β} (hx : Built C Γ x)
      (hk : ∀ r, (∀ e, r = .error e → C.failure e) → Built C Γ fun L => k L r)
      (hfatal : ∀ L e, e.isFatal = true → k L (.error e) = Eval.raise e) :
      Built C Γ fun L => Eval.attempt (x L) >>= k L
  | inScope {Γ : List Fact} {α : Type} {x : Level → Eval α} (s : ScopeId) (hs : .scope s ∈ Γ)
      (ho : .own s ∈ Γ) (hx : Built C (.here :: .inside :: Γ) x) :
      Built C Γ fun L => Eval.inScope s (x L)
  | inBody {Γ : List Fact} {α : Type} {x : Level → Eval α} (s : ScopeId) (Δ : List Fact)
      (hs : .scope s ∈ Γ) (ho : .naming s ∈ Γ) (hΔ : ∀ k ∈ Δ, k ∈ Γ) (hh : .here ∉ Δ)
      (hx : Built C (.inside :: Δ) x) : Built C Γ fun L => Eval.inScope s (x L)
  | bracket {Γ : List Fact} {α : Type} {x : Level → Eval α}
      (enter leave : Registers → Registers) (hback : ∀ r, leave (enter r) = r)
      (hscope : ∀ r, (enter r).scope = r.scope) (hdepth : ∀ r, (enter r).depth = r.depth)
      (hloading : (∀ r, (enter r).loading = r.loading) ∨ .importing ∈ Γ)
      (hx : Built C Γ x) : Built C Γ fun L => Eval.bracket enter leave (x L)
  /-- A module is imported. Only this enters modules and remembers them. The program of
      the module and what follows do so if they import modules themselves. -/
  | load {Γ : List Fact} {β : Type} {k : Level → ClassId → Eval β} (path : String)
      (hpath : Path.IsCanonical path)
      (hx : Built C (.importing :: Γ) fun L => Import.load L path >>= k L)
      (hp : ∀ items, (∃ d source, C.disk d ∧ d.readText path = .ok source ∧
        parseProgram source = .ok items) → Built C [.here, .inside] fun L => Import.program L items)
      (hk : ∀ c, Built C (.module c :: .named c :: Γ) fun L => k L c) :
      Built C Γ fun L => Import.load L path >>= k L
  /-- What does on each machine what something built does there. The bound on nested calls
      makes no difference to what it is. -/
  | pointwise {Γ : List Fact} {α : Type} {x : Level → Eval α} (y : Machine → Level → Eval α)
      (hy : ∀ m, Built C Γ (y m))
      (hxy : ∀ m L limit, x L (m.withLimit limit) = y m L (m.withLimit limit)) : Built C Γ x
  | nested {Γ : List Fact} {α : Type} {x : Level → Eval α} (f : Overload) (span : Span)
      (hx : Built C Γ x) :
      Built C Γ fun L => do
        Invocation.checkDepth f span
        Eval.bracket (·.enterCall) (·.leaveCall) (x L)
  | loop {Γ : List Fact} {α : Type} {step : Level → Eval (Option α)} (hstep : Built C Γ step) :
      Built C Γ fun L => Eval.loop (step L) L.rounds
  | evaluate {Γ : List Fact} (e : Expr) (he : C.code (.expr e)) :
      Built C Γ fun L => L.evaluate e
  | execute {Γ : List Fact} {β : Type} {k : Level → Flow → Eval β} (stmt : Stmt)
      (hs : C.code (.stmt stmt)) (hh : ∀ k ∈ stmt.needs, k ∈ Γ)
      (hk : ∀ flow, C.flow stmt flow → Built C Γ fun L => k L flow) :
      Built C Γ fun L => L.execute stmt >>= k L
  | invoke {Γ : List Fact} (f : OverloadId) (receiver : Option Value)
      (arguments : List Value) (span : Span) :
      Built C Γ fun L => L.invoke f receiver arguments span
  | body {Γ : List Fact} (f : Overload) (receiver : Option Value) (arguments : List Value)
      (hf : ∀ k ∈ f.facts, k ∈ Γ) (hc : C.overload f) :
      Built C Γ fun L => L.body f receiver arguments
  | stringify {Γ : List Fact} (v : Value) : Built C Γ fun L => L.stringify v
  | operate {Γ : List Fact} (op : Operator) (left : Value) (rest : List Value)
      (span : Span) : Built C Γ fun L => L.operate op left rest span
  | serialize {Γ : List Fact} (outer : List ObjectId) (v : Value) :
      Built C Γ fun L => L.serialize outer v
  | deserialize {Γ : List Fact} (j : Json) (c : ClassId) :
      Built C Γ fun L => L.deserialize j c

/-! ### Knowing more -/

section Weakening

variable {C : Law} {Γ Δ : List Fact}
variable {s : ScopeId} {α : Type} {name : String} {kept : Scope → Bool} {f : Heap → α}
variable {known : α → List Fact} {learned : α → Prop}

theorem append_subset (hΓ : Γ ⊆ Δ) (known : List Fact) : known ++ Γ ⊆ known ++ Δ := by grind

theorem Placing.weaken {owner : Option ClassId} (h : Placing Γ s owner)
    (hΓ : Γ ⊆ Δ) : Placing Δ s owner := by
  cases h with
  | free ho => exact .free (hΓ ho)
  | member c hc hs => exact .member c (hΓ hc) (hΓ hs)
  | field o c hs ho => exact .field o c (hΓ hs) (hΓ ho)

theorem Putting.weaken {v : Variable}
    (h : Putting Γ s name v kept) (hΓ : Γ ⊆ Δ) : Putting Δ s name v kept := by
  cases h with
  | declared v hs => exact .declared v (hs.imp (hΓ ·) fun ⟨c, hc⟩ => ⟨c, hΓ hc⟩)
  | bound value ho => exact .bound value (hΓ ho)
  | field o v hs hv => exact .field o v (hΓ hs) hv

theorem Assigning.weaken (h : Assigning Γ s name kept) (hΓ : Γ ⊆ Δ) : Assigning Δ s name kept := by
  cases h with
  | checked => exact .checked
  | field hs => exact .field (hΓ hs)

theorem Write.weaken {f : Heap → Heap} (h : Write C Γ f) (hΓ : Γ ⊆ Δ) : Write C Δ f := by
  cases h with
  | «variable» s name v kept hv hp => exact .variable s name v kept (hv.weaken hΓ) (hp.weaken hΓ)
  | slot s name value kept hp => exact .slot s name value kept (hp.weaken hΓ)
  | copy s name c hc ho => exact .copy s name c (hΓ hc) (hΓ ho)
  | overload s id f hf hs => exact .overload s id f (hΓ hf) (hs.weaken hΓ)
  | family s name overloads hf ho => exact .family s name overloads (hΓ hf) (hΓ ho)
  | «class» s name c hc ho => exact .class s name c (hΓ hc) (hΓ ho)
  | field f hd hf => exact .field f (hΓ hd) hf
  | contents id f => exact .contents id f

theorem Creation.weaken {f : Heap → Nat × Heap} (h : Creation Γ f) (hΓ : Γ ⊆ Δ) : Creation Δ f := by
  cases h with
  | object type payload ht hp => exact .object type payload (ht.imp_right (hΓ ·)) hp
  | callable c => exact .callable c

theorem Opening.weaken {kind : ScopeKind} {parent : Option ScopeId} (h : Opening Γ kind parent)
    (hΓ : Γ ⊆ Δ) : Opening Δ kind parent := by
  cases h with
  | module globals hg => exact .module globals (hΓ hg)
  | block outer ho => exact .block outer (hΓ ho)
  | function closure hc => exact .function closure (hΓ hc)
  | method closure object fields hc hm hs hf =>
    exact .method closure object fields (hΓ hc) (hΓ hm) (hΓ hs) (hΓ hf)

theorem Finding.weaken
    (h : Finding C Γ f known learned) (hΓ : Γ ⊆ Δ) : Finding C Δ f known learned := by
  cases h with
  | classScope c => exact .classScope c
  | type c hc hd => exact .type c (hΓ hc) (hΓ hd)
  | bodyScope c hc hd => exact .bodyScope c (hΓ hc) (hΓ hd)
  | fields c => exact .fields c
  | overload id => exact .overload id
  | host c => exact .host c
  | fieldScope o => exact .fieldScope o
  | slots v => exact .slots v
  | receiver f r => exact .receiver f r
  | name site name => exact .name site name
  | «export» c name hc => exact .export c name (hΓ hc)

theorem Finding.learned_of_false (h : Finding False Γ f known learned) (a : α) : learned a := by
  cases h with
  | fields c => exact fun _ _ _ _ => False.elim
  | overload id => exact fun _ _ _ => False.elim
  | _ => trivial

theorem Known.weaken {c : ClassId} (h : Known Γ c) (hΓ : Γ ⊆ Δ) : Known Δ c := by
  rcases h with h | h | h
  · exact .inl h
  · exact .inr (.inl h)
  · exact .inr (.inr (hΓ h))

theorem Built.weaken {x : Level → Eval α} (hx : Built C Γ x) (hΓ : Γ ⊆ Δ) : Built C Δ x := by
  induction hx generalizing Δ with
  | pure a => exact .pure a
  | bind _ _ ihx ihk => exact .bind (ihx hΓ) fun a => ihk a hΓ
  | raise e he => exact .raise e he
  | ask f => exact .ask f
  | find hf _ ihk => exact .find (hf.weaken hΓ) fun a ha => ihk a ha (append_subset hΓ _)
  | read f hf => exact .read f hf
  | scope _ ihk => exact .scope fun s => ihk s (append_subset hΓ [_])
  | site hh _ ihk => exact .site (hΓ hh) fun s => ihk s (append_subset hΓ [_, _, _])
  | siteInside hh _ ihk => exact .siteInside (hΓ hh) fun s => ihk s (append_subset hΓ [_, _])
  | disk _ ihk => exact .disk fun d hd => ihk d hd hΓ
  | globals _ ihk => exact .globals fun s => ihk s (append_subset hΓ [_])
  | modules path _ ihk => exact .modules path fun found => ihk found (append_subset hΓ _)
  | change hf => exact .change (hf.weaken hΓ)
  | create hf => exact .create (hf.weaken hΓ)
  | newScope kind parent ho _ ihk =>
    exact .newScope kind parent (ho.weaken hΓ) fun s => ihk s (append_subset hΓ [_, _, _])
  | newInstance type _ ihk => exact .newInstance type fun o => ihk o (append_subset hΓ [_])
  | newOverload f hf hc _ ihk =>
    exact .newOverload f (fun k hk => hΓ (hf k hk)) hc fun id => ihk id (append_subset hΓ [_])
  | newClass name supers isStatic access parent hp hs hroot _ ihk =>
    exact .newClass name supers isStatic access parent (hΓ hp) (fun p h => (hs p h).weaken hΓ) hroot
      fun c => ihk c (append_subset hΓ _)
  | declare name supers isStatic access parent hp hs hroot _ ihk =>
    exact .declare name supers isStatic access parent (hΓ hp) (fun p h => (hs p h).weaken hΓ) hroot
      fun c => ihk c (append_subset hΓ _)
  | «export» path name source parent hi hp hs _ ihk =>
    exact .export path name source parent (hΓ hi) (hΓ hp) (hΓ hs)
      fun c => ihk c (append_subset hΓ [_, _])
  | print text => exact .print text
  | mapFailure f hf hm _ ihx => exact .mapFailure f hf hm (ihx hΓ)
  | attempt _ _ hfatal ihx ihk => exact .attempt (ihx hΓ) (fun r hr => ihk r hr hΓ) hfatal
  | inScope s hs ho _ ihx => exact .inScope s (hΓ hs) (hΓ ho) (ihx (append_subset hΓ [_, _]))
  | inBody s known hs ho hknown hh hx _ =>
    exact .inBody s known (hΓ hs) (hΓ ho) (fun k hk => hΓ (hknown k hk)) hh hx
  | bracket enter leave hback hscope hdepth hloading _ ihx =>
    exact .bracket enter leave hback hscope hdepth (hloading.imp_right (hΓ ·)) (ihx hΓ)
  | load path hpath _ hp _ ihx _ ihk =>
    exact .load path hpath (ihx (append_subset hΓ [_])) hp
      fun c => ihk c (append_subset hΓ [_, _])
  | pointwise y _ hxy ihy => exact .pointwise y (fun m => ihy m hΓ) hxy
  | nested f span _ ihx => exact .nested f span (ihx hΓ)
  | loop _ ihstep => exact .loop (ihstep hΓ)
  | evaluate e he => exact .evaluate e he
  | execute stmt hs hh _ ihk =>
    exact .execute stmt hs (fun k hk => hΓ (hh k hk)) fun flow hf => ihk flow hf hΓ
  | invoke f receiver arguments span => exact .invoke f receiver arguments span
  | body f receiver arguments hf hc =>
    exact .body f receiver arguments (fun k hk => hΓ (hf k hk)) hc
  | stringify v => exact .stringify v
  | operate op left rest span => exact .operate op left rest span
  | serialize outer v => exact .serialize outer v
  | deserialize j c => exact .deserialize j c

end Weakening

def BuiltAt (C : Law) (Γ : List Fact) (m : Machine) {α : Type} (x : Level → Eval α) : Prop :=
  ∃ y : Level → Eval α, Built C Γ y ∧
    ∀ L limit, x L (m.withLimit limit) = y L (m.withLimit limit)

namespace BuiltAt

variable {C : Law} {Γ : List Fact} {m : Machine} {α β : Type} {x : Level → Eval α}
variable {k : Level → α → Eval β}

theorem of_built (hx : Built C Γ x) : BuiltAt C Γ m x :=
  ⟨x, hx, fun _ _ => rfl⟩

theorem ask {f : Heap → α}
    (hk : BuiltAt C Γ m fun L => k L (f m.heap)) : BuiltAt C Γ m fun L => Eval.ask f >>= k L :=
  hk

theorem scope {k : Level → ScopeId → Eval β} (hk : BuiltAt C Γ m fun L => k L m.registers.scope) :
    BuiltAt C Γ m fun L => Eval.scope >>= k L :=
  hk

theorem ite {y : Level → Eval α} (c : Prop) [Decidable c] (hx : c → BuiltAt C Γ m x)
    (hy : ¬ c → BuiltAt C Γ m y) : BuiltAt C Γ m fun L => if c then x L else y L := by
  by_cases hc : c
  · simpa only [if_pos hc] using hx hc
  · simpa only [if_neg hc] using hy hc

theorem bind (hx : BuiltAt C Γ m x)
    (hk : ∀ a, Built C Γ fun L => k L a) : BuiltAt C Γ m fun L => x L >>= k L := by
  obtain ⟨y, hy, hxy⟩ := hx
  refine ⟨fun L => y L >>= k L, .bind hy hk, fun L limit => ?_⟩
  dsimp only
  rw [Eval.bind_apply, Eval.bind_apply, hxy]

theorem assoc {γ : Type} {f : Level → α → Eval β} {k : Level → β → Eval γ}
    (h : BuiltAt C Γ m fun L => x L >>= fun a => f L a >>= k L) :
    BuiltAt C Γ m fun L => (x L >>= f L) >>= k L := by
  simpa using h

end BuiltAt

namespace Built

variable {C : Law} {Γ : List Fact} {α β : Type} {x : Level → Eval α} {γ : Type}
variable {f : Level → α → Eval β}

theorem fail (f : Fault) (hf : f.isStructural = false) :
    Built C Γ fun _ => (Eval.fail f : Eval α) :=
  .raise _ (Law.failure_fault (C.ordinary f hf) none [])

theorem isFatal_locate (span : Span) (e : Failure) : (e.locate span).isFatal = e.isFatal := by
  cases e with
  | fault f at? notes => cases at? <;> rfl
  | syntactic | thrown | file => rfl

theorem fault?_locate (span : Span) (e : Failure) : (e.locate span).fault? = e.fault? := by
  cases e with
  | fault f at? notes => cases at? <;> rfl
  | syntactic | thrown | file => rfl

theorem locate (span : Span) (hx : Built C Γ x) : Built C Γ fun L => Eval.locate span (x L) :=
  .mapFailure (·.locate span) (isFatal_locate span) (fault?_locate span) hx

theorem ite {y : Level → Eval α} (c : Prop) [Decidable c] (hx : Built C Γ x) (hy : Built C Γ y) :
    Built C Γ fun L => if c then x L else y L := by
  by_cases hc : c
  · simpa only [if_pos hc] using hx
  · simpa only [if_neg hc] using hy

theorem of_each (hx : ∀ m, BuiltAt C Γ m x) : Built C Γ x := by
  choose y hy hxy using hx
  exact .pointwise y hy hxy

theorem assoc {k : Level → β → Eval γ} (h : Built C Γ fun L => x L >>= fun a => f L a >>= k L) :
    Built C Γ fun L => (x L >>= f L) >>= k L := by
  simpa using h

theorem mapOnto (as : List α) (hf : ∀ a ∈ as, Built C Γ fun L => f L a) :
    ∀ found, Built C Γ fun L => Eval.mapOnto (f L) as found := by
  induction as with
  | nil => intro found; exact .pure _
  | cons a rest ih =>
    intro found
    refine .bind (hf a mem_cons_self) fun b => ih (fun c hc => ?_) (b :: found)
    exact hf c (mem_cons_of_mem a hc)

theorem mapList (as : List α)
    (hf : ∀ a ∈ as, Built C Γ fun L => f L a) : Built C Γ fun L => Eval.mapList (f L) as :=
  mapOnto as hf []

theorem firstSome {test : Level → α → Eval Bool} {g : α → β}
    {k : Level → Option β → Eval γ} (as : List α) (ht : ∀ a ∈ as, Built C Γ fun L => test L a)
    (hk : ∀ found, (∀ b, found = some b → ∃ a ∈ as, g a = b) → Built C Γ fun L => k L found) :
    Built C Γ fun L => Eval.firstSome (fun a => do
      if ← test L a then return some (g a) else return none) as >>= k L := by
  induction as with
  | nil => exact hk none (by simp)
  | cons a rest ih =>
    simp only [Eval.firstSome_cons, bind_assoc]
    refine .bind (ht a mem_cons_self) fun answer => ?_
    cases answer with
    | true => exact hk (some (g a)) fun b hb => ⟨a, mem_cons_self, Option.some.inj hb⟩
    | false =>
      refine ih (fun c hc => ht c (mem_cons_of_mem a hc)) fun found hfound => ?_
      refine hk found fun b hb => ?_
      grind

theorem forList {f : Level → α → Eval Unit} (as : List α)
    (hf : ∀ a ∈ as, Built C Γ fun L => f L a) : Built C Γ fun L => Eval.forList (f L) as := by
  induction as with
  | nil => exact .pure ()
  | cons a rest ih =>
    simp only [Eval.forList_cons]
    exact .bind (hf a mem_cons_self) fun _ => ih fun c hc => hf c (mem_cons_of_mem a hc)

end Built

end ClassScript
