import ClassScript.Proofs.Inheritance.Selection
import ClassScript.Proofs.Runs

/-!
# Precedence Among Members

What is there is not replaced by what the ancestors of its own class declare, but this comparison
is not transitive: a third class may replace an override and be replaced by what was overridden.
Such a class intrudes, and nothing else can go wrong.

The invariant `Heap.Selecting` says for each class that what was gathered is the fold over what
its super classes have, or over less, and that a class that has not taken over members has only
its own.
-/

namespace ClassScript

open List

variable {o : Option ClassId} {h : Heap} {sc : Scope} {key : MemberKey} {c : ClassId}

namespace Heap

variable {h : Heap} {modules : List (String × ClassId)}
variable {a c : ClassId}

theorem descends_of_inheritsWithin {n : Nat} : ∀ {c : ClassId},
    h.inheritsWithin a n c = true → h.Descends c a := by
  induction n with
  | zero => intro c hc; cases hc
  | succ n ih =>
    intro c hc
    rw [inheritsWithin, Bool.or_eq_true, beq_iff_eq, any_eq_true] at hc
    rcases hc with rfl | ⟨p, hp, hpa⟩
    · exact .self c
    · exact .super hp (ih hpa)

theorem Descends.inheritsWithin (ho : h.Owned modules) (hca : h.Descends c a) :
    ∀ {n : Nat}, c < n → h.inheritsWithin a n c = true := by
  induction hca with
  | self c =>
    intro n hn
    obtain ⟨n, rfl⟩ := Nat.exists_eq_succ_of_ne_zero (Nat.ne_zero_of_lt hn)
    rw [Heap.inheritsWithin, beq_self_eq_true, Bool.true_or]
  | @super c p a hp _ ih =>
    intro n hn
    obtain ⟨n, rfl⟩ := Nat.exists_eq_succ_of_ne_zero (Nat.ne_zero_of_lt hn)
    have hlt : p < n := Nat.lt_of_lt_of_le (ho.supers c p hp).1 (Nat.le_of_lt_succ hn)
    rw [Heap.inheritsWithin, Bool.or_eq_true, any_eq_true]
    exact .inr ⟨p, hp, ih hlt⟩

theorem inherits_iff (ho : h.Owned modules) : h.inherits c a = true ↔ h.Descends c a :=
  ⟨descends_of_inheritsWithin, fun hca => hca.inheritsWithin ho (Nat.lt_succ_self c)⟩

theorem Descends.antisymm (ho : h.Owned modules) {b : ClassId} (hab : h.Descends a b)
    (hba : h.Descends b a) : a = b :=
  Nat.le_antisymm (hba.le ho) (hab.le ho)

theorem Descends.eq_of_supers (hca : h.Descends c a) (hs : (h.classAt c).supers = []) : a = c := by
  cases hca with
  | self => rfl
  | super hp _ =>
    rw [hs] at hp
    cases hp

/-- Something was declared by one of some classes, or by one that all of them inherit
    from. -/
def Ranked (h : Heap) (W : ClassId → Prop) (owner : Option ClassId) : Prop :=
  ∃ o, owner = some o ∧ (W o ∨ ∀ x, W x → h.Descends x o)

section Comparison

variable {W : ClassId → Prop} {n : ClassId}

theorem settle_incoming (ho : h.Owned modules) {old : Option (Option ClassId)}
    (hold : ∀ o, old = some o → h.Ranked W o) (hn : W n) :
    ∃ x, h.settle .replace old (some (some n)) = some (some x) ∧ W x := by
  cases old with
  | none => exact ⟨n, rfl, hn⟩
  | some old =>
    obtain ⟨o, rfl, hrank⟩ := hold old rfl
    rw [settle]
    split
    · exact ⟨n, rfl, hn⟩
    · next hkept =>
      have hinherits : h.inherits o n = true := by
        by_contra hc
        exact hkept ⟨rfl, congrArg not (Bool.eq_false_iff.mpr hc)⟩
      rcases hrank with hother | habove
      · exact ⟨o, rfl, hother⟩
      · obtain rfl := ((inherits_iff ho).mp hinherits).antisymm ho (habove n hn)
        exact ⟨o, rfl, hn⟩

theorem settle_existing (ho : h.Owned modules) {x : ClassId} (hx : W x)
    {new : Option (Option ClassId)} (hnew : ∀ o, new = some o → h.Ranked W o) :
    ∃ y, h.settle .replace (some (some x)) new = some (some y) ∧ W y := by
  cases new with
  | none => exact ⟨x, rfl, hx⟩
  | some new =>
    obtain ⟨n, rfl, hrank⟩ := hnew new rfl
    rw [settle]
    split
    · next hwins =>
      rcases hrank with hother | habove
      · exact ⟨n, rfl, hother⟩
      · have hdisplaces : (!h.inherits x n) = true := hwins.2
        rw [(inherits_iff ho).mpr (habove x hx)] at hdisplaces
        cases hdisplaces
    · exact ⟨x, rfl, hx⟩

variable {c : ClassId} {has : ScopeId → Option (Option ClassId)}

theorem gather_ranked (ho : h.Owned modules)
    (hall : ∀ s ∈ (h.classAt c).supers.flatMap h.sourcesOf, ∀ o, has s = some o → h.Ranked W o)
    {s : ScopeId} (hs : s ∈ (h.classAt c).supers.flatMap h.sourcesOf)
    (hhas : has s = some (some n)) (hn : W n) : ∃ x, h.gather c has = some (some x) ∧ W x := by
  refine foldl_reaches (I := fun old => ∃ x, old = some (some x) ∧ W x)
    (K := fun old => ∀ o, old = some o → h.Ranked W o) hs (fun old s' hs' hold o hsettle => ?_)
    (fun old hold => ?_) (fun old s' hs' _ hthere => ?_) none nofun
  · rcases settle_eq_some hsettle with hkept | hcame
    · exact hold o hkept
    · exact hall s' hs' o hcame
  · rw [hhas]
    exact settle_incoming ho hold hn
  · obtain ⟨x, rfl, hx⟩ := hthere
    exact settle_existing ho hx (hall s' hs')

theorem gather_eq_some (hgather : h.gather c has = some o) :
    ∃ p ∈ (h.classAt c).supers, ∃ s ∈ h.sourcesOf p, has s = some o := by
  have hfrom : ∀ o, h.gather c has = some o →
      ∃ s ∈ (h.classAt c).supers.flatMap h.sourcesOf, has s = some o := by
    refine foldlRecOn (motive := fun old => ∀ o, old = some o →
      ∃ s ∈ (h.classAt c).supers.flatMap h.sourcesOf, has s = some o) _ _ nofun
      fun old hold s hs o hsettle => ?_
    rcases settle_eq_some hsettle with hthere | hnew
    · exact hold o hthere
    · exact ⟨s, hs, hnew⟩
  grind

end Comparison

end Heap

def Heap.selected? (h : Heap) (c : ClassId) (key : MemberKey) : Option (Option ClassId) :=
  (h.scopeAt (h.classAt c).scope).selected? h key

def Heap.Declares (h : Heap) (c : ClassId) (key : MemberKey) : Prop :=
  h.selected? c key = some (some c)

/-- A class or one of its ancestors declares a member, and is a proper subclass of another
    class. -/
structure Heap.Overrides (h : Heap) (c : ClassId) (key : MemberKey) (q p : ClassId) : Prop where
  above : h.Descends c p
  below : h.Descends p q
  ne : p ≠ q
  declares : h.Declares p key

/-- A proper ancestor declares a member although it does not inherit from the other class and there
    is an override that does not inherit from it. -/
structure Heap.Intrudes (h : Heap) (c : ClassId) (key : MemberKey) (q r : ClassId) : Prop where
  above : h.Descends c r
  ne : r ≠ c
  unrelated : h.selected? r key = some none ∨ h.Declares r key ∧ ¬ h.Descends r q ∧
    ∃ p, h.Overrides c key q p ∧ ¬ h.Descends p r

def Heap.Finished (h : Heap) (p g : ClassId) : Prop :=
  ∀ d, (h.classAt p).ancestors = some d → d < g

/-- A class and all its ancestors have taken over members if they inherit, each after its
    super classes. -/
def Heap.InOrder (h : Heap) (c : ClassId) : Prop :=
  ∀ e, h.Descends c e → ((h.classAt e).ancestors = none → (h.classAt e).supers = []) ∧
    ∀ g, (h.classAt e).ancestors = some g → ∀ p ∈ (h.classAt e).supers, h.Finished p g

/-- A class and all older ones took over members in order. -/
def Heap.InOrderUpTo (h : Heap) (c : ClassId) : Prop :=
  ∀ e, e < c + 1 → ((h.classAt e).ancestors = none → (h.classAt e).supers = []) ∧
    ∀ g ∈ (h.classAt e).ancestors, ∀ p ∈ (h.classAt e).supers,
      ∀ d ∈ (h.classAt p).ancestors, d < g

instance (h : Heap) (c : ClassId) : Decidable (h.InOrderUpTo c) := by
  unfold Heap.InOrderUpTo
  infer_instance

structure Scope.IsOwn (h : Heap) (c : ClassId) (sc : Scope) : Prop where
  functions : ∀ e ∈ sc.functions.entries, ∀ f ∈ e.2, (h.overloadAt f).owner = some c
  vars : ∀ e ∈ sc.vars.entries, e.2.owner = some c

structure Heap.Resolved (h : Heap) (c g : ClassId) : Prop where
  own : ∀ key, key.Clear h → ∀ o, h.selected? c key = some o →
    o = some c ∨ h.selected? g key = some o
  gathered : ∀ key, key.Clear h → (∀ p ∈ (h.classAt c).supers, h.Finished p g) →
    ∃ seen : ScopeId → Option (Option ClassId), h.selected? g key = h.gather c seen ∧
      ∀ p ∈ (h.classAt c).supers, ∀ s ∈ h.sourcesOf p,
        seen s = (h.scopeAt s).selected? h key ∨ seen s = none ∧ (h.classAt p).ancestors = none

/-- A class that has not taken over members has only its own. All others have what their super
    classes pass on. -/
structure Heap.Selecting (h : Heap) (modules : List (String × ClassId)) : Prop where
  own : ∀ c, h.Named c → (∀ e ∈ modules, e.2 ≠ c) → (h.classAt c).ancestors = none →
    (h.scopeAt (h.classAt c).scope).IsOwn h c
  resolved : ∀ c g, (h.classAt c).ancestors = some g → h.Resolved c g

theorem Scope.selected?_mem (hselected : sc.selected? h key = some o) :
    (∃ e ∈ sc.functions.entries, ∃ f ∈ e.2, (h.overloadAt f).owner = o) ∨
      ∃ e ∈ sc.vars.entries, e.2.owner = o := by
  cases key with
  | function =>
    obtain ⟨f, hf, howner⟩ := Option.map_eq_some_iff.mp hselected
    obtain ⟨e, he, _, hfe⟩ := Scope.mem_family (mem_of_find?_eq_some hf)
    exact .inl ⟨e, he, f, hfe, howner⟩
  | «variable» name =>
    obtain ⟨v, hv, howner⟩ := Option.map_eq_some_iff.mp hselected
    exact .inr ⟨(name, v), OrderedMap.mem_of_find? hv, howner⟩

theorem Scope.IsOwn.selected (hsc : sc.IsOwn h c) (hselected : sc.selected? h key = some o) :
    o = some c := by
  rcases selected?_mem hselected with ⟨e, he, f, hf, rfl⟩ | ⟨e, he, rfl⟩
  · exact hsc.functions e he f hf
  · exact hsc.vars e he

namespace Heap

variable {h : Heap} {modules : List (String × ClassId)} {q p : ClassId}

theorem selected?_fits (ho : h.Owned modules) (hl : h.Linked) {o : ClassId}
    (hc : c < h.classes.size) (hselected : h.selected? c key = some (some o)) :
    h.Fits modules c o := by
  have hscope := ho.scopes (h.classAt c).scope
  have hmay : h.MayOwn modules (h.scopeAt (h.classAt c).scope).kind o := by
    rcases Scope.selected?_mem hselected with ⟨e, he, f, hf, howner⟩ | ⟨e, he, howner⟩
    · exact (hscope.functions e he f hf).owner o howner
    · exact hscope.vars e he o howner
  rw [(hl.classes c hc).kind] at hmay
  exact hmay

theorem Intrudes.incomparable {r : ClassId} (hr : h.Intrudes c key q r) :
    h.selected? r key = some none ∨
      h.Declares r key ∧ ¬ h.Descends r q ∧ ¬ h.Descends q r := by
  rcases hr.unrelated with hunowned | ⟨hdeclares, hrq, p, hover, hpr⟩
  · exact .inl hunowned
  · exact .inr ⟨hdeclares, hrq, fun hqr => hpr (hover.below.trans hqr)⟩

theorem InOrderUpTo.inOrder (hc : h.InOrderUpTo c) (ho : h.Owned modules) : h.InOrder c :=
  fun e he => hc e (Nat.lt_succ_of_le (he.le ho))

theorem InOrder.super (hc : h.InOrder c) (hp : p ∈ (h.classAt c).supers) : h.InOrder p :=
  fun e he => hc e (.super hp he)

section Selecting

variable (hs : h.Selecting modules) (ho : h.Owned modules) (hl : h.Linked) {key : MemberKey}
  (hkey : key.Clear h)

variable {s : ScopeId} {e : ClassId}

include hs ho hl hkey

theorem Selecting.declared (p : ClassId) (hn : h.Named p) (hp : h.InOrder p)
    (hsp : s ∈ h.sourcesOf p) (hselected : (h.scopeAt s).selected? h key = some o) :
    ∃ r, h.Descends p r ∧ h.selected? r key = some o ∧ (o = some r ∨ o = none) := by
  induction p using Nat.strongRecOn generalizing s with
  | _ p ih =>
    -- What it has from its ancestors is passed on by super classes, which are older.
    have hshadow (g : ClassId) (hg : (h.classAt p).ancestors = some g)
        (hthere : h.selected? g key = some o) :
        ∃ r, h.Descends p r ∧ h.selected? r key = some o ∧ (o = some r ∨ o = none) := by
      obtain ⟨seen, hgathered, hseen⟩ := (hs.resolved p g hg).gathered key hkey
        ((hp p (.self p)).2 g hg)
      obtain ⟨p', hp', s', hs', hsome⟩ := gather_eq_some (hgathered.symm.trans hthere)
      have hnow : (h.scopeAt s').selected? h key = some o := by grind
      obtain ⟨hlt, hnamed⟩ := ho.supers p p' hp'
      obtain ⟨r, hr, hdeclares⟩ := ih p' hlt hnamed (hp.super hp') hs' hnow
      exact ⟨r, .super hp' hr, hdeclares⟩
    rcases mem_sourcesOf.mp hsp with ⟨g, hg, rfl⟩ | rfl
    · exact hshadow g hg hselected
    cases hancestors : (h.classAt p).ancestors with
    | none =>
      refine ⟨p, .self p, hselected, ?_⟩
      cases o with
      | none => exact .inr rfl
      | some c =>
        have hpc := (selected?_fits ho hl hn.lt hselected).member hn
        exact .inl (congrArg some (hpc.eq_of_supers ((hp p (.self p)).1 hancestors)))
    | some g =>
      rcases (hs.resolved p g hancestors).own key hkey o hselected with hown | hthere
      · exact ⟨p, .self p, hselected, .inl hown⟩
      · exact hshadow g hancestors hthere

theorem Selecting.ranked (hc : h.InOrder c)
    (hnone : ∀ r, ¬ h.Intrudes c key q r) (hce : h.Descends c e) (hp : p ∈ (h.classAt e).supers)
    (hsp : s ∈ h.sourcesOf p)
    (hselected : (h.scopeAt s).selected? h key = some o) : h.Ranked (h.Overrides c key q) o := by
  obtain ⟨hlt, hnamed⟩ := ho.supers e p hp
  obtain ⟨r, hr, hthere, hdeclared⟩ := hs.declared ho hl hkey p hnamed
    (fun e' he' => hc e' (hce.trans (.super hp he'))) hsp hselected
  have hcr : h.Descends c r := hce.trans (.super hp hr)
  have hne : r ≠ c :=
    Nat.ne_of_lt (Nat.lt_of_le_of_lt (hr.le ho) (Nat.lt_of_lt_of_le hlt (hce.le ho)))
  rcases hdeclared with rfl | rfl
  · refine ⟨r, rfl, ?_⟩
    by_contra hneither
    obtain ⟨hover, hall⟩ := not_or.mp hneither
    obtain ⟨x, hx⟩ := not_forall.mp hall
    obtain ⟨hx, hxr⟩ := Classical.not_imp.mp hx
    -- It is not the class that is overridden, since the override inherits from that.
    have hrq : r ≠ q := fun hrq => hxr (hrq ▸ hx.below)
    exact hnone r ⟨hcr, hne, .inr ⟨hthere, fun hbelow => hover ⟨hcr, hbelow, hrq, hthere⟩, x, hx,
      hxr⟩⟩
  · exact absurd ⟨hcr, hne, .inl hthere⟩ (hnone r)

theorem Selecting.gathers_override (hc : h.InOrder c)
    (hnone : ∀ r, ¬ h.Intrudes c key q r) (hep : h.Descends e p) :
    h.Overrides c key q p → h.Descends c e → e ≠ p →
      ∃ g x, (h.classAt e).ancestors = some g ∧ h.selected? g key = some (some x) ∧
        h.Overrides c key q x := by
  -- Along the way from the class to the one that declares the override.
  induction hep with
  | self p => exact fun _ _ hne => absurd rfl hne
  | @super e p' p hp' hp'p ih =>
    intro hover hce _
    obtain ⟨g, hg⟩ : ∃ g, (h.classAt e).ancestors = some g := by
      cases hancestors : (h.classAt e).ancestors with
      | some g => exact ⟨g, rfl⟩
      | none =>
        rw [(hc e hce).1 hancestors] at hp'
        cases hp'
    obtain ⟨seen, hgathered, hseen⟩ := (hs.resolved e g hg).gathered key hkey
      ((hc e hce).2 g hg)
    have hranked (s : ScopeId) (hsource : s ∈ (h.classAt e).supers.flatMap h.sourcesOf)
        (o : Option ClassId) (hsome : seen s = some o) : h.Ranked (h.Overrides c key q) o := by
      obtain ⟨p₁, hp₁, hs₁⟩ := mem_flatMap.mp hsource
      rcases hseen p₁ hp₁ s hs₁ with hsame | ⟨hmissing, _⟩
      · exact hs.ranked ho hl hkey hc hnone hce hp₁ hs₁ (hsame.symm.trans hsome)
      · rw [hmissing] at hsome
        cases hsome
    -- The super class on the way passes on an override, and did so when members were taken.
    obtain ⟨s, x, hs₁, hnow, hancestors, hx⟩ : ∃ s x, s ∈ h.sourcesOf p' ∧
        (h.scopeAt s).selected? h key = some (some x) ∧ (h.classAt p').ancestors ≠ none ∧
          h.Overrides c key q x := by
      by_cases hpp : p' = p
      · rw [hpp]
        refine ⟨(h.classAt p).scope, p, mem_sourcesOf.mpr (.inr rfl), hover.declares,
          fun hancestors => ?_, hover⟩
        exact hover.ne (hover.below.eq_of_supers ((hc p hover.above).1 hancestors)).symm
      · obtain ⟨g', x, hg', hthere, hx⟩ := ih hover (hce.trans (.super hp' (.self p'))) hpp
        refine ⟨(h.classAt g').scope, x, mem_sourcesOf.mpr (.inl ⟨g', hg', rfl⟩), hthere, ?_, hx⟩
        rw [hg']
        exact nofun
    have hpassed : seen s = some (some x) := by grind
    obtain ⟨y, hy, hover'⟩ := gather_ranked ho hranked
      (mem_flatMap.mpr ⟨p', hp', hs₁⟩) hpassed hx
    exact ⟨g, y, hg, hgathered.trans hy, hover'⟩

theorem Selecting.most_derived (hc : h.InOrder c)
    (hselected : h.selected? c key = some (some q)) (hnone : ∀ r, ¬ h.Intrudes c key q r)
    (p : ClassId) : ¬ h.Overrides c key q p := by
  intro hover
  have hsame {x y : ClassId} (hxy : some (some x) = some (some y)) : x = y :=
    Option.some.inj (Option.some.inj hxy)
  by_cases hcp : c = p
  · exact hover.ne (hsame (hover.declares.symm.trans (hcp ▸ hselected)))
  · obtain ⟨g, x, hg, hthere, hx⟩ :=
      hs.gathers_override ho hl hkey hc hnone hover.above hover (.self c) hcp
    rcases (hs.resolved c g hg).own key hkey _ hselected with hown | hgathered
    · -- The class would be its own proper ancestor.
      obtain rfl : q = c := Option.some.inj hown
      exact hcp (hover.above.antisymm ho hover.below)
    · exact hx.ne (hsame (hthere.symm.trans hgathered))

end Selecting

end Heap

end ClassScript
