import ClassScript.Proofs.Inheritance.Declared
import ClassScript.Proofs.Inheritance.Resolution

/-!
# Overrides in a Session

At any time of a session, no class has a member that was overridden on the way to it, as long as no
other class intrudes.
-/

namespace ClassScript

open Heap Machine

variable {h : Heap} {m : Machine}

section Writes

variable {Γ : List Fact} {m : Machine}
variable {f : Heap → Heap}

theorem Machine.Ready.unsettled (hΓ : m.Ready Γ) {c : ClassId} (hc : .declared c ∈ Γ) :
    (m.heap.classAt c).ancestors = none := by
  cases hancestors : (m.heap.classAt c).ancestors with
  | none => rfl
  | some g => exact absurd ⟨c, g, hancestors, .inl rfl⟩ (hΓ.spares.apart _ hc).2

theorem Placing.open_or_own {s : ScopeId} {owner : Option ClassId} (hp : Placing Γ s owner)
    (hm : m.Steady) (hΓ : m.Ready Γ) : m.heap.IsOpen s ∨ ∃ c, (m.heap.classAt c).scope = s ∧
      owner = some c ∧ m.heap.Named c ∧ (∀ e ∈ m.modules, e.2 ≠ c) ∧
        (m.heap.classAt c).ancestors = none := by
  cases hp with
  | free ho => exact .inl (isOpen_of_opened (hΓ.allowed _ ho))
  | field o c hs _ =>
    have hkind := (hm.linked.heap.objects o s (hΓ.knows.holds _ hs)).kind
    exact .inl fun d hd => ScopeKind.noConfusion (hkind.symm.trans hd)
  | member c hc hs =>
    obtain ⟨hnamed, hmodules⟩ := hΓ.knows.stands _ hc
    exact .inr ⟨c, (hΓ.knows.holds _ hs).2, rfl, hnamed, hmodules, hΓ.unsettled hc⟩

theorem Write.continues (hf : Write False Γ f) (hm : m.Steady) (hΓ : m.Ready Γ)
    (hext : m.heap.Extends m.modules (f m.heap) m.modules) :
    m.heap.Continues m.modules (f m.heap) m.modules := by
  have ho := hm.owned.heap
  have hl := hm.linked.heap
  cases hf with
  | «variable» s name v kept hv _ =>
    rcases hv.open_or_own hm hΓ with hopen | ⟨c, rfl, howner, hn, hmodules, hnone⟩
    · exact .of_open ho hl hext hopen
    · by_cases hkept : kept (m.heap.scopeAt (m.heap.classAt c).scope) = true
      · refine .of_members ho hl hext fun t _ => updateScope_sameMembers ?_ ?_ t
        · rw [if_pos hkept]
        · rw [if_pos hkept]
      · refine .of_gain ho hl hext hn hmodules hnone ?_
        rw [if_neg hkept]
        exact .variable name v howner
  | slot s name value kept _ =>
    have hassign := (m.heap.scopeAt s).bindings_assign name value
    have hsame : (if kept (m.heap.scopeAt s) then m.heap.scopeAt s
        else (m.heap.scopeAt s).assign name value).bindings = (m.heap.scopeAt s).bindings := by
      split
      · rfl
      · exact hassign
    have hfunctions := congrArg Scope.functions hsame
    have hvars := congrArg Scope.vars hsame
    refine .of_members ho hl hext fun t _ => updateScope_sameMembers ?_ ?_ t
    · exact hfunctions
    · exact hvars
  | copy s name c _ hown | family s name family _ hown =>
    exact .of_open ho hl hext (isOpen_of_opened (hΓ.allowed _ hown))
  | overload s id f hf hp =>
    have hthere : m.heap.overloadAt id = f := (hΓ.knows.stands _ hf).2
    rcases hp.open_or_own hm hΓ with hopen | ⟨c, rfl, howner, hn, hmodules, hnone⟩
    · exact .of_open ho hl hext hopen
    · exact .of_gain ho hl hext hn hmodules hnone (.overload id (hthere ▸ howner))
  | «class» => exact .of_members ho hl hext fun t _ => updateScope_sameMembers rfl rfl t
  | field | contents => exact .of_members ho hl hext fun s _ => Heap.SameNames.members (.of_eq rfl)

theorem Write.classes_size (hf : Write False Γ f) (h : Heap) :
    (f h).classes.size = h.classes.size := by
  cases hf with
  | field => exact Array.size_modify
  | _ => rfl

end Writes

theorem Machine.Moves.selecting {m' : Machine} (hmove : m.Moves m')
    (hs : m.heap.Selecting m.modules) : m'.heap.Selecting m'.modules := by
  have ho := hmove.before.owned.heap
  have hl := hmove.before.linked.heap
  have hext := hmove.extend
  cases hmove.step with
  | still hheap hmodules =>
    rw [hheap, hmodules]
    exact hs
  | @write Γ f hf hΓ =>
    have hsize := hf.classes_size m.heap
    have hup := hf.upholds hmove.before.linked hmove.before.owned hΓ.knows
    refine hs.continues ho hl (hf.continues hmove.before hΓ hext) hsize fun c g hg => ?_
    exact (Heap.Upholds.settled hup c (Nat.lt_of_lt_of_eq (lt_of_ancestors hg) hsize)).symm.trans hg
  | create hf _ => cases hf <;> exact hs.of_scopes ho hl hext rfl rfl fun _ _ hg => hg
  | newScope | newInstance => exact hs.newScope ho hl hext rfl rfl
  | newOverload => exact hs.of_scopes ho hl hext rfl rfl fun _ _ hg => hg
  | newClass name supers isStatic access parent _ => exact hs.newClass ho hl _ parent hext rfl
  | flatten c hn hmodules hnone => exact hs.flatten ho hl hn hmodules hnone
  | «export» path name source parent _ => exact hs.exportClass ho hl path name source parent hext

namespace Heap

variable {h : Heap}

theorem Selecting.of_empty
    (hempty : ∀ s, (h.scopeAt s).functions.entries = [] ∧ (h.scopeAt s).vars.entries = [])
    (hnone : ∀ c, (h.classAt c).ancestors = none) : h.Selecting [] := by
  refine ⟨fun c _ _ _ => ⟨?_, ?_⟩, fun c g hg => ?_⟩
  · rw [(hempty _).1]
    exact fun _ => nofun
  · rw [(hempty _).2]
    exact fun _ => nofun
  · exact absurd ((hnone c).symm.trans hg) nofun

variable (hs : h.Selecting []) (ho : h.Owned []) (hl : h.Linked)

include hs ho hl

theorem Selecting.updateScope {s : ScopeId} {f : Scope → Scope}
    (hcont : h.Continues [] (h.updateScope s f) []) : (h.updateScope s f).Selecting [] :=
  hs.continues ho hl hcont rfl fun _ _ hg => hg

theorem Selecting.updateClass {c : ClassId} {f : Class → Class}
    (hlead : h.Leads (h.updateClass c f))
    (hf : ∀ k, (f k).supers = k.supers ∧ (f k).name = k.name ∧ (f k).ancestors = k.ancestors) :
    (h.updateClass c f).Selecting [] := by
  refine hs.of_scopes ho hl (updateClass_upholds ho hlead hf).extend rfl Array.size_modify
    fun d g hg => ?_
  exact (getD_modify Class.ancestors h.classes f (fun k => (hf k).2.2) default c d).symm.trans hg

end Heap

theorem Heap.Prepares.selecting {h' : Heap} (hstep : h.Prepares h') (hs : h.Selecting [])
    (hl : h.Linked) (ho : h.Owned []) : h'.Selecting [] := by
  obtain ⟨hlead, hup, -⟩ := hstep.settles hl ho
  have hext := hup.extend
  cases hstep with
  | newScope => exact hs.newScope ho hl hext rfl rfl
  | newClass c parent _ hfresh _ => exact hs.newClass ho hl c parent hext hfresh.1
  | newOverload => exact hs.of_scopes ho hl hext rfl rfl fun _ _ hg => hg
  | @«variable» c hn hnone name v hv =>
    exact hs.updateScope ho hl (.of_gain ho hl hext hn nofun hnone (.variable name v hv))
  | @method c hn hnone id hid hf =>
    exact hs.updateScope ho hl (.of_gain ho hl hext hn nofun hnone (.overload id hf))
  | @function s hkind id hid _ =>
    -- The scope is none of a class.
    have hopen : h.IsOpen s := fun c hc => by
      rw [hkind] at hc
      cases hc
    exact hs.updateScope ho hl (.of_open ho hl hext hopen)
  | name s _ =>
    -- Names of classes are not members.
    exact hs.updateScope ho hl
      (.of_members ho hl hext fun t _ => updateScope_sameMembers rfl rfl t)
  | field | native | operators => exact hs.updateClass ho hl hlead fun _ => ⟨rfl, rfl, rfl⟩

theorem Heap.Prepared.selecting (hp : h.Prepared) : h.Selecting [] := by
  induction hp with
  | empty => exact .of_empty (fun _ => ⟨rfl, rfl⟩) fun _ => rfl
  | step _ hl ho hstep ih => exact hstep.selecting ih hl ho
  | flatten _ hl ho hn hnone ih => exact ih.flatten ho hl hn nofun hnone

theorem Machine.initial_selecting (config : Config) (disk : Disk) (hosts : List HostClass) :
    (Machine.initial config disk hosts).heap.Selecting [] :=
  (initial_prepared config disk hosts).selecting

theorem InSession.selecting (hm : InSession m) : m.heap.Selecting m.modules :=
  hm.invariant (I := fun m => m.heap.Selecting m.modules) initial_selecting
    fun _ _ hmove hs => hmove.selecting hs

/-- At any time of a session, the member that a class has was declared by a class that nothing
    overrides, or another class intrudes. -/
theorem InSession.selects_most_derived {m : Machine} (hm : InSession m) {key : MemberKey}
    (hkey : key.Clear m.heap) {d q : ClassId} (hd : m.heap.InOrder d)
    (hselected : m.heap.selected? d key = some (some q)) :
    (∀ p, ¬ m.heap.Overrides d key q p) ∨ ∃ r, m.heap.Intrudes d key q r := by
  by_cases hintruded : ∃ r, m.heap.Intrudes d key q r
  · exact .inr hintruded
  · exact .inl (hm.selecting.most_derived hm.reachable.owned.heap hm.reachable.linked.heap hkey hd
      hselected fun r hr => hintruded ⟨r, hr⟩)

def Declaration.kennel (supers : List String) : List Stmt :=
  [.class ⟨"Animal", [], [signature "feed" [["int", "str"]]], .none, default⟩,
   .class ⟨"Pet", ["Animal"], [signature "feed" [["str", "int"]]], .none, default⟩,
   .class ⟨"Beast", ["Animal"], [], .none, default⟩,
   .class ⟨"Robot", [], [signature "feed" [["int", "str"]]], .none, default⟩,
   .class ⟨"Dog", supers, [], .none, default⟩]

def Declaration.litter : List Stmt :=
  [.class ⟨"Animal", [], [signature "feed" [["int", "str"]]], .none, default⟩,
   .class ⟨"Pet", ["Animal"], [.class ⟨"Dog", ["Pet", "Animal"], [], .none, default⟩,
     signature "feed" [["int", "str"]]], .none, default⟩]

def Declaration.doubled : List Stmt :=
  [.class ⟨"Animal", [], [signature "feed" [["int", "str"]]], .none, default⟩,
   .class ⟨"Pet", ["Animal"], [signature "feed" [["int", "int"]]], .none, default⟩,
   .class ⟨"Dog", ["Pet"], [], .none, default⟩]

def Machine.declaring (program : List Stmt) : Machine :=
  ((Request.module program).perform (level 20) (Machine.initial Config.standard default [])).machine

theorem InSession.declaring (program : List Stmt) : InSession (Machine.declaring program) :=
  .running (.initial Config.standard default []) (fun _ => false) 20 (.module program)

def MemberKey.feed : MemberKey :=
  .function "feed" { (default : Overload) with
    params := [⟨"x", some [ClassId.int, ClassId.str], none, false⟩] }

structure Heap.Kennel (h : Heap) (dog animal pet : ClassId) : Prop where
  dog : (h.classAt dog).name = "Dog"
  animal : (h.classAt animal).name = "Animal"
  pet : (h.classAt pet).name = "Pet"

instance (h : Heap) (dog animal pet : ClassId) : Decidable (h.Kennel dog animal pet) :=
  decidable_of_iff ((h.classAt dog).name = "Dog" ∧ (h.classAt animal).name = "Animal" ∧
    (h.classAt pet).name = "Pet") ⟨fun ⟨hd, ha, hp⟩ => ⟨hd, ha, hp⟩, fun h => ⟨h.1, h.2, h.3⟩⟩

theorem InSession.dog_selects_pet :
    let m := Machine.declaring (Declaration.kennel ["Pet", "Beast", "Animal"])
    InSession m ∧ ∃ d a q, m.heap.Kennel d a q ∧ m.heap.InOrder d ∧ MemberKey.feed.Clear m.heap ∧
      m.heap.selected? d .feed = some (some q) ∧ ∀ p, ¬ m.heap.Overrides d .feed q p := by
  intro m
  have hm : InSession m := .declaring _
  have ho := hm.reachable.owned.heap
  -- All ancestors that declare the function inherit from the class, or it from them.
  obtain ⟨hkennel, hdistinct, hselected, hall, hrelated⟩ :
      m.heap.Kennel 58 50 52 ∧ m.heap.Distinct ∧
        m.heap.selected? 58 .feed = some (some 52) ∧
        m.heap.InOrderUpTo 58 ∧
        ∀ r, r < 58 + 1 → m.heap.inherits 58 r = true →
          m.heap.selected? r .feed ≠ some none ∧
            (m.heap.selected? r .feed = some (some r) →
              m.heap.inherits r 52 = true ∨ m.heap.inherits 52 r = true) := by
    decide +kernel
  have hclear : MemberKey.feed.Clear m.heap := hdistinct.clear (by decide) "feed"
  have horder := hall.inOrder ho
  refine ⟨hm, 58, 50, 52, hkennel, horder, hclear, hselected, ?_⟩
  rcases InSession.selects_most_derived hm hclear horder hselected with hmost | ⟨r, hr⟩
  · exact hmost
  · obtain ⟨howned, hways⟩ := hrelated r (Nat.lt_succ_of_le (hr.above.le ho))
      ((inherits_iff ho).mpr hr.above)
    rcases hr.incomparable with hnone | ⟨hdeclares, hbelow, habove⟩
    · exact absurd hnone howned
    · rcases hways hdeclares with hrq | hqr
      · exact absurd ((inherits_iff ho).mp hrq) hbelow
      · exact absurd ((inherits_iff ho).mp hqr) habove

def Declaration.Undoes (program : List Stmt) : Prop :=
  let m := Machine.declaring program
  InSession m ∧ ∃ d q p, m.heap.Kennel d q p ∧ m.heap.selected? d .feed = some (some q) ∧
    m.heap.Overrides d .feed q p

theorem Declaration.undoes_of_inherits {program : List Stmt} {d q p : ClassId}
    (hfound : let h := (Machine.declaring program).heap
      h.Kennel d q p ∧ h.selected? d .feed = some (some q) ∧ h.inherits d p = true ∧
        h.inherits p q = true ∧ p ≠ q ∧ h.selected? p .feed = some (some p)) :
    Declaration.Undoes program := by
  have hm := InSession.declaring program
  have ho := hm.reachable.owned.heap
  obtain ⟨hkennel, hselected, habove, hbelow, hne, hdeclares⟩ := hfound
  exact ⟨hm, d, q, p, hkennel, hselected, (inherits_iff ho).mp habove,
    (inherits_iff ho).mp hbelow, hne, hdeclares⟩

/-- A class intrudes; a class is declared in the body of the one that overrides; and a class that is
    listed twice makes the override another function. -/
theorem Declaration.override_undone : Undoes (kennel ["Pet", "Robot", "Animal"]) ∧
    Undoes litter ∧ Undoes doubled := by
  refine ⟨?_, ?_, ?_⟩
  · exact undoes_of_inherits (d := 58) (q := 50) (p := 52) (by decide +kernel)
  · exact undoes_of_inherits (d := 53) (q := 50) (p := 52) (by decide +kernel)
  · exact undoes_of_inherits (d := 54) (q := 50) (p := 52) (by decide +kernel)

end ClassScript
