import ClassScript.Proofs.Inheritance.Ownership

/-!
# Taking Over Members

What a class has after it has taken over members. All scopes but two are as before: that of the
class, and a new one in which the members of its ancestors are gathered. The class then takes what
it does not have, except constructors.
-/

namespace ClassScript

open List Array OrderedMap Scope

structure Heap.SameBut (t : ScopeId) (h h' : Heap) : Prop where
  classes : h'.classes = h.classes
  overloads : h'.overloads = h.overloads
  size : h'.scopes.size = h.scopes.size
  scopes : ∀ s, s ≠ t → h'.scopeAt s = h.scopeAt s

/-- The scopes with the members that a super class passes on: those that it has from its
    ancestors, and its own. -/
def Heap.sourcesOf (h : Heap) (p : ClassId) : List ScopeId :=
  ((h.classAt p).ancestors.toList.map fun g => (h.classAt g).scope) ++ [(h.classAt p).scope]

def Heap.mergeAll (h : Heap) (target : ScopeId) (sources : List ScopeId) : Heap :=
  sources.foldl (fun h s => h.mergeScopes .replace s target) h

def Heap.withShadow (h : Heap) (c : ClassId) : Heap :=
  (h.newClass (Class.fresh ((h.classAt c).name ++ ".super") [] true .private)
    (h.scopeAt (h.classAt c).scope).parent).2

def Heap.gathered (h : Heap) (c : ClassId) : Heap :=
  (h.withShadow c).mergeAll h.scopes.size ((h.classAt c).supers.flatMap (h.withShadow c).sourcesOf)

namespace Heap

variable {h : Heap} {c : ClassId}

/-! ### Differing in one scope -/

theorem SameBut.refl (t : ScopeId) (h : Heap) : SameBut t h h := ⟨rfl, rfl, rfl, fun _ _ => rfl⟩

theorem SameBut.trans {t : ScopeId} {a b c : Heap} (hab : SameBut t a b) (hbc : SameBut t b c) :
    SameBut t a c :=
  ⟨hbc.classes.trans hab.classes, hbc.overloads.trans hab.overloads, hbc.size.trans hab.size,
    fun s hs => (hbc.scopes s hs).trans (hab.scopes s hs)⟩

section SameBut

variable {t : ScopeId} {h h' : Heap} (hs : SameBut t h h')

include hs

theorem SameBut.classAt (c : ClassId) : h'.classAt c = h.classAt c := by
  unfold Heap.classAt
  rw [hs.classes]

theorem SameBut.overloadAt (f : OverloadId) : h'.overloadAt f = h.overloadAt f := by
  unfold Heap.overloadAt
  rw [hs.overloads]

theorem SameBut.apart (family : List OverloadId) : h'.Apart family ↔ h.Apart family := by
  unfold Heap.Apart sameShape
  simp [hs.overloadAt]

theorem SameBut.distinct (hd : h.Distinct) : h'.Distinct := by
  intro f
  rw [hs.overloadAt]
  exact hd f

theorem SameBut.offers {name : String} {f : OverloadId} {sc : Scope} :
    sc.Offers h' name f ↔ sc.Offers h name f := by
  unfold Scope.Offers
  simp [hs.overloadAt]

theorem SameBut.isConstructor (f : Overload) : h'.isConstructor f = h.isConstructor f := by
  unfold Heap.isConstructor className
  simp [hs.classAt]

theorem SameBut.sourcesOf (p : ClassId) : h'.sourcesOf p = h.sourcesOf p := by
  unfold Heap.sourcesOf
  simp [hs.classAt]

end SameBut

theorem mergeScopes_sameBut (h : Heap) (mode : MergeMode) (source target : ScopeId) :
    SameBut target h (h.mergeScopes mode source target) := by
  refine ⟨rfl, rfl, size_modify, fun s hs => ?_⟩
  exact (scopeAt_updateScope h target _ s).trans (if_neg fun h => hs h.1.symm)

theorem scopeAt_mergeScopes (h : Heap) (mode : MergeMode) (source : ScopeId) {target : ScopeId}
    (ht : target < h.scopes.size) : (h.mergeScopes mode source target).scopeAt target =
      Scope.merge h mode (h.scopeAt source) (h.scopeAt target) :=
  (scopeAt_updateScope h target _ target).trans (if_pos ⟨rfl, ht⟩)

/-! ### Gathering -/

section Gathering

variable {t : ScopeId} {sources : List ScopeId}

theorem mergeAll_sameBut (h : Heap) (sources : List ScopeId) : SameBut t h (h.mergeAll t sources) :=
  foldlRecOn (motive := SameBut t h) sources _ (.refl t h)
    fun k hk s _ => hk.trans (mergeScopes_sameBut k .replace s t)

theorem mergeSuper_eq (h : Heap) (p : ClassId) :
    h.mergeSuper t p = h.mergeAll t (h.sourcesOf p) := by
  unfold mergeSuper mergeAll sourcesOf
  dsimp only
  cases (h.classAt p).ancestors <;> rfl

theorem mergeSupers_eq (supers : List ClassId) : ∀ h : Heap,
    supers.foldl (fun h p => h.mergeSuper t p) h = h.mergeAll t (supers.flatMap h.sourcesOf) := by
  induction supers with
  | nil => intro h; rfl
  | cons p supers ih =>
    intro h
    have hsame := mergeAll_sameBut (t := t) h (h.sourcesOf p)
    rw [foldl_cons, ih, mergeSuper_eq, flatMap_cons]
    have hsources : (h.mergeAll t (h.sourcesOf p)).sourcesOf = h.sourcesOf := funext hsame.sourcesOf
    rw [hsources]
    unfold mergeAll
    rw [List.foldl_append]

theorem mergeAll_follows {γ : Type} {I : γ → Scope → Prop} {next : γ → ScopeId → γ}
    (ht : t < h.scopes.size) : ∀ k a, SameBut t h k → I a (k.scopeAt t) →
      (∀ s ∈ sources, s ≠ t ∧ ∀ k, SameBut t h k → ∀ a sc, I a sc →
        I (next a s) (Scope.merge k .replace (h.scopeAt s) sc)) →
      I (sources.foldl next a) ((k.mergeAll t sources).scopeAt t) := by
  induction sources with
  | nil => exact fun _ _ _ ha _ => ha
  | cons s rest ih =>
    intro k a hk ha hmerge
    obtain ⟨⟨hst, hfirst⟩, hrest⟩ := forall_mem_cons.mp hmerge
    refine ih _ _ (hk.trans (mergeScopes_sameBut k .replace s t)) ?_ hrest
    rw [scopeAt_mergeScopes k .replace s (hk.size ▸ ht), hk.scopes s hst]
    exact hfirst k hk a _ ha

theorem mergeAll_offers (hd : h.Distinct)
    (hsources : ∀ s ∈ sources, s ≠ t) (ht : t < h.scopes.size) {s : ScopeId} (hs : s ∈ sources)
    {name : String} {family : List OverloadId}
    (hfamily : (name, family) ∈ (h.scopeAt s).functions.entries) {f : OverloadId}
    (hf : f ∈ family) :
    ((h.mergeAll t sources).scopeAt t).Offers h name f := by
  refine foldl_reaches (I := fun k : Heap => (k.scopeAt t).Offers h name f) (K := SameBut t h) hs
    (fun k s _ hk => hk.trans (mergeScopes_sameBut k .replace s t)) (fun k hk => ?_)
    (fun k s' hs' hk hoffers => ?_) h (.refl t h)
  · rw [scopeAt_mergeScopes k .replace s (hk.size ▸ ht), hk.scopes s (hsources s hs)]
    exact hk.offers.mp (merge_offers_source (hk.distinct hd) _ hfamily hf fun h => nomatch h.1)
  · rw [scopeAt_mergeScopes k .replace s' (hk.size ▸ ht)]
    exact hk.offers.mp (merge_offers (hk.distinct hd) (hk.offers.mpr hoffers))

end Gathering

/-! ### The steps -/

theorem flatten_of_supers_nil (hs : (h.classAt c).supers = []) : h.flatten c = h := by
  unfold flatten
  dsimp only
  rw [hs]
  rfl

section Steps

variable (h : Heap) (c : ClassId)

theorem withShadow_classAt (d : ClassId) : (h.withShadow c).classAt d =
    if d = h.classes.size then
      { Class.fresh ((h.classAt c).name ++ ".super") [] true .private with
        id := h.classes.size, scope := h.scopes.size }
    else h.classAt d :=
  classAt_newClass h _ _ d

theorem withShadow_scopeAt (s : ScopeId) : (h.withShadow c).scopeAt s =
    if s = h.scopes.size then
      .fresh (.classBody h.classes.size) (h.scopeAt (h.classAt c).scope).parent
    else h.scopeAt s :=
  scopeAt_newScope h _ _ s

theorem gathered_sameBut : SameBut h.scopes.size (h.withShadow c) (h.gathered c) :=
  mergeAll_sameBut _ _

/-- A class takes over members in three steps: those of its ancestors are gathered, it takes what it
    does not have, and it is noted where the others are. -/
theorem flatten_eq (hs : (h.classAt c).supers ≠ []) :
    h.flatten c = ((h.gathered c).mergeScopes .keep h.scopes.size (h.classAt c).scope).updateClass c
      fun k =>
        { k with
          ancestors := some h.classes.size
          fields := h.inheritedFields (h.classAt c).supers ++ (h.classAt c).fields
          operators := h.inheritedOperators (h.classAt c) } := by
  have htarget : ((h.withShadow c).classAt h.classes.size).scope = h.scopes.size := by
    rw [withShadow_classAt, if_pos rfl]
  let merged := (h.classAt c).supers.foldl
    (fun k p => k.mergeSuper ((h.withShadow c).classAt h.classes.size).scope p) (h.withShadow c)
  let taken := merged.mergeScopes .keep ((h.withShadow c).classAt h.classes.size).scope
    (h.classAt c).scope
  have htaken : taken = (h.gathered c).mergeScopes .keep h.scopes.size (h.classAt c).scope := by
    dsimp only [taken, merged]
    rw [htarget, mergeSupers_eq]
    rfl
  have hsame {β : Type} (g : Class → β)
      (hg : ∀ p, g ((h.withShadow c).classAt p) = g (h.classAt p)) (p : ClassId) :
      g (taken.classAt p) = g (h.classAt p) := by
    rw [htaken, (mergeScopes_sameBut _ _ _ _).classAt, (h.gathered_sameBut c).classAt, hg]
  have hoperators : taken.inheritedOperators (h.classAt c) =
      h.inheritedOperators (h.classAt c) := by
    unfold inheritedOperators
    simp [hsame Class.operators (newClass_field Class.operators h _ _ rfl)]
  have hfields : taken.inheritedFields (h.classAt c).supers =
      h.inheritedFields (h.classAt c).supers := by
    unfold inheritedFields
    simp [hsame Class.fields (newClass_field Class.fields h _ _ rfl)]
  have hempty : ¬ (h.classAt c).supers.isEmpty = true := fun he => hs (List.isEmpty_iff.mp he)
  have hflat : h.flatten c = taken.updateClass c fun k =>
      { k with
        ancestors := some h.classes.size
        fields := taken.inheritedFields (h.classAt c).supers ++ (h.classAt c).fields
        operators := taken.inheritedOperators (h.classAt c) } := by
    unfold flatten
    rw [if_neg hempty]
    rfl
  rw [hflat, hoperators, hfields, htaken]

theorem flatten_classAt (hc : c < h.classes.size) (hs : (h.classAt c).supers ≠ []) (d : ClassId) :
    (h.flatten c).classAt d =
      if d = c then
        { h.classAt c with
          ancestors := some h.classes.size
          fields := h.inheritedFields (h.classAt c).supers ++ (h.classAt c).fields
          operators := h.inheritedOperators (h.classAt c) }
      else (h.withShadow c).classAt d := by
  have hsame := h.gathered_sameBut c
  have hlt : c < (h.gathered c).classes.size := by
    rw [hsame.classes]
    exact Nat.lt_of_lt_of_eq (Nat.lt_succ_of_lt hc) (size_push _).symm
  rw [flatten_eq h c hs, classAt_updateClass]
  by_cases hd : d = c
  · rw [if_pos ⟨hd.symm, hlt⟩, if_pos hd, (mergeScopes_sameBut _ _ _ _).classAt, hsame.classAt,
      withShadow_classAt, if_neg (Nat.ne_of_lt hc)]
  · rw [if_neg (fun h => hd h.1.symm), if_neg hd, (mergeScopes_sameBut _ _ _ _).classAt,
      hsame.classAt]

end Steps

structure TakesOver (h : Heap) (c : ClassId) (h' : Heap) : Prop where
  overloads : h'.overloads = h.overloads
  classes : h'.classes.size = h.classes.size + 1
  supers : ∀ d, (h'.classAt d).supers = (h.classAt d).supers
  name : ∀ d, d < h.classes.size → (h'.classAt d).name = (h.classAt d).name
  scope : ∀ d, d < h.classes.size → (h'.classAt d).scope = (h.classAt d).scope
  ancestors : ∀ d, (h'.classAt d).ancestors =
    if d = c then some h.classes.size else (h.classAt d).ancestors
  shadow : (h'.classAt h.classes.size).scope = h.scopes.size
  shadowScope : h'.scopeAt h.scopes.size = (h.gathered c).scopeAt h.scopes.size
  ownScope : h'.scopeAt (h.classAt c).scope = Scope.merge (h.gathered c) .keep
    ((h.gathered c).scopeAt h.scopes.size) (h.scopeAt (h.classAt c).scope)
  otherScope : ∀ s, s ≠ h.scopes.size → s ≠ (h.classAt c).scope → h'.scopeAt s = h.scopeAt s

theorem flatten_takesOver (hl : h.Linked) (hc : c < h.classes.size)
    (hs : (h.classAt c).supers ≠ []) : h.TakesOver c (h.flatten c) := by
  have hflat := h.flatten_eq c hs
  have hsame := h.gathered_sameBut c
  have hown : (h.classAt c).scope < h.scopes.size := (hl.classes c hc).scope
  have hsize : (h.gathered c).scopes.size = h.scopes.size + 1 :=
    hsame.size.trans (size_push _)
  have hold (s : ScopeId) (hst : s ≠ h.scopes.size) : (h.gathered c).scopeAt s = h.scopeAt s := by
    rw [hsame.scopes s hst, withShadow_scopeAt, if_neg hst]
  have hclass := h.flatten_classAt c hc hs
  have hkept {β : Type} (g : Class → β) (hg : g ((h.flatten c).classAt c) = g (h.classAt c))
      (d : ClassId) (hd : d < h.classes.size) : g ((h.flatten c).classAt d) = g (h.classAt d) := by
    by_cases hdc : d = c
    · rw [hdc, hg]
    · rw [hclass, if_neg hdc, withShadow_classAt, if_neg (Nat.ne_of_lt hd)]
  refine ⟨?_, ?_, fun d => ?_, fun d hd => ?_, fun d hd => ?_, fun d => ?_, ?_, ?_, ?_,
    fun s hst hsc => ?_⟩
  · rw [hflat]
    exact hsame.overloads
  · rw [hflat]
    refine Array.size_modify.trans ?_
    rw [(mergeScopes_sameBut _ _ _ _).classes, hsame.classes]
    exact size_push _
  · rw [hclass]
    split
    · next hd => rw [hd]
    · exact newClass_field Class.supers h _ _ rfl d
  · exact hkept Class.name (by rw [hclass, if_pos rfl]) d hd
  · exact hkept Class.scope (by rw [hclass, if_pos rfl]) d hd
  · rw [hclass]
    split
    · rfl
    · exact newClass_field Class.ancestors h _ _ rfl d
  · rw [hclass, if_neg (Nat.ne_of_gt hc), withShadow_classAt, if_pos rfl]
  · rw [hflat]
    exact (mergeScopes_sameBut _ .keep _ _).scopes _ (Nat.ne_of_gt hown)
  · rw [hflat]
    change ((h.gathered c).mergeScopes .keep h.scopes.size (h.classAt c).scope).scopeAt _ = _
    have hlt : (h.classAt c).scope < (h.gathered c).scopes.size := by grind
    rw [scopeAt_mergeScopes _ _ _ hlt, hold _ (Nat.ne_of_lt hown)]
  · rw [hflat]
    exact ((mergeScopes_sameBut _ .keep _ _).scopes s hsc).trans (hold s hst)

/-! ### The members of the ancestors -/

def Ancestral (h : Heap) (c : ClassId) (owner : Option ClassId) : Prop :=
  ∀ o, owner = some o → h.Descends c o ∧ o ≠ c

section Ancestors

variable {h : Heap} {modules : List (String × ClassId)} {c : ClassId} {s : ScopeId} {p : ClassId}

theorem mem_sourcesOf : s ∈ h.sourcesOf p ↔
    (∃ g, (h.classAt p).ancestors = some g ∧ s = (h.classAt g).scope) ∨
      s = (h.classAt p).scope := by
  unfold sourcesOf
  grind

theorem scope_mem_sources (hp : p ∈ (h.classAt c).supers) :
    (h.classAt p).scope ∈ (h.classAt c).supers.flatMap h.sourcesOf :=
  mem_flatMap.mpr ⟨p, hp, mem_sourcesOf.mpr (.inr rfl)⟩

theorem withShadow_sources (ho : h.Owned modules) :
    (h.classAt c).supers.flatMap (h.withShadow c).sourcesOf =
      (h.classAt c).supers.flatMap h.sourcesOf := by
  have hold (d : ClassId) (hd : d < h.classes.size) : (h.withShadow c).classAt d = h.classAt d := by
    rw [withShadow_classAt, if_neg (Nat.ne_of_lt hd)]
  refine flatMap_congr fun p hp => ?_
  unfold sourcesOf
  rw [hold p (ho.supers c p hp).2.lt]
  refine congrArg (· ++ _) (map_congr_left fun g hg => ?_)
  rw [hold g (ho.shadows p g (Option.mem_toList.mp hg))]

theorem mem_sources (ho : h.Owned modules) (hl : h.Linked)
    (hs : s ∈ (h.classAt c).supers.flatMap h.sourcesOf) :
    s ≠ h.scopes.size ∧ ∃ p ∈ (h.classAt c).supers, ∃ d, d < h.classes.size ∧
      (d = p ∨ (h.classAt p).ancestors = some d) ∧ s = (h.classAt d).scope := by
  obtain ⟨p, hp, hs⟩ := mem_flatMap.mp hs
  obtain ⟨d, hd, hdp, rfl⟩ : ∃ d, d < h.classes.size ∧
      (d = p ∨ (h.classAt p).ancestors = some d) ∧ s = (h.classAt d).scope := by
    rcases mem_sourcesOf.mp hs with ⟨d, hd, hs⟩ | hs
    · exact ⟨d, ho.shadows p d hd, .inr hd, hs⟩
    · exact ⟨p, (ho.supers c p hp).2.lt, .inl rfl, hs⟩
  exact ⟨Nat.ne_of_lt (hl.classes d hd).scope, p, hp, d, hd, hdp, rfl⟩

theorem gathered_follows {γ : Type} {I : γ → Scope → Prop} {f : γ → ScopeId → γ} {a : γ}
    (ho : h.Owned modules) (hl : h.Linked)
    (hstart : ∀ parent, I a (.fresh (.classBody h.classes.size) parent))
    (hmerge : ∀ k, SameBut h.scopes.size (h.withShadow c) k → ∀ p ∈ (h.classAt c).supers, ∀ d,
      d < h.classes.size → (d = p ∨ (h.classAt p).ancestors = some d) → ∀ a sc, I a sc →
        I (f a (h.classAt d).scope)
          (Scope.merge k .replace (h.scopeAt (h.classAt d).scope) sc)) :
    I (((h.classAt c).supers.flatMap h.sourcesOf).foldl f a)
      ((h.gathered c).scopeAt h.scopes.size) := by
  unfold gathered
  rw [withShadow_sources ho]
  refine mergeAll_follows (Nat.lt_of_lt_of_eq (Nat.lt_succ_self _) (size_push _).symm)
    _ a (.refl _ _) ?_ fun s hs => ?_
  · rw [withShadow_scopeAt, if_pos rfl]
    exact hstart _
  · obtain ⟨hne, p, hp, d, hd, hdp, rfl⟩ := mem_sources ho hl hs
    rw [withShadow_scopeAt, if_neg hne]
    exact ⟨hne, fun k hk => hmerge k hk p hp d hd hdp⟩

theorem gathered_keeps {I : Scope → Prop} (ho : h.Owned modules) (hl : h.Linked)
    (hstart : ∀ parent, I (.fresh (.classBody h.classes.size) parent))
    (hmerge : ∀ k, SameBut h.scopes.size (h.withShadow c) k → ∀ p ∈ (h.classAt c).supers, ∀ d,
      d < h.classes.size → (d = p ∨ (h.classAt p).ancestors = some d) → ∀ sc, I sc →
        I (Scope.merge k .replace (h.scopeAt (h.classAt d).scope) sc)) :
    I ((h.gathered c).scopeAt h.scopes.size) :=
  gathered_follows (I := fun _ : Unit => I) (f := fun _ _ => ()) (a := ()) ho hl hstart
    fun k hk p hp d hd hdp _ => hmerge k hk p hp d hd hdp

theorem gathered_kind (ho : h.Owned modules) (hl : h.Linked) :
    ((h.gathered c).scopeAt h.scopes.size).kind = .classBody h.classes.size := by
  refine gathered_keeps (I := fun sc => sc.kind = .classBody h.classes.size) ho hl (fun _ => rfl)
    fun k _ p _ d _ _ sc hsc => ?_
  exact (merge_samePlace k .replace _ sc).2.trans hsc

theorem gathered_apart (ho : h.Owned modules) (hl : h.Linked) :
    ((h.gathered c).scopeAt h.scopes.size).Apart h := by
  refine gathered_keeps (I := Scope.Apart h) ho hl (fun _ _ => nofun)
    fun k hk p _ d _ _ sc hsc => ?_
  have hsame : ∀ family, k.Apart family ↔ h.Apart family := hk.apart
  have hthere : sc.Apart k := fun e he => (hsame e.2).mpr (hsc e he)
  exact fun e he => (hsame e.2).mp (merge_apart .replace _ hthere e he)

theorem source_ancestral (ho : h.Owned modules) {d o : ClassId} (hp : p ∈ (h.classAt c).supers)
    (hd : d = p ∨ (h.classAt p).ancestors = some d) (hfits : h.Fits modules d o) :
    h.Descends c o ∧ o ≠ c := by
  obtain ⟨hpc, hnamed⟩ := ho.supers c p hp
  have hpo : h.Descends p o := by
    rcases hd with rfl | hd
    · exact hfits.member hnamed
    · exact (hfits.shadow p hd).1
  exact ⟨.super hp hpo, Nat.ne_of_lt (Nat.lt_of_le_of_lt (hpo.le ho) hpc)⟩

theorem gathered_every (ho : h.Owned modules) (hl : h.Linked) :
    ((h.gathered c).scopeAt h.scopes.size).Every
      (fun name f => f < h.overloads.size ∧ (h.overloadAt f).name = name ∧
        h.Ancestral c (h.overloadAt f).owner)
      (fun _ v => h.Ancestral c v.owner) fun _ d => h.Named d := by
  refine gathered_keeps ho hl (fun _ => ⟨fun _ => nofun, fun _ => nofun, fun _ => nofun⟩)
    fun k _ p hp d hd hdp sc hsc => merge_every hsc ?_
  have hsource := ho.scopes (h.classAt d).scope
  have hkind := (hl.classes d hd).kind
  have hfits (o : ClassId) (hown : h.MayOwn modules (h.scopeAt (h.classAt d).scope).kind o) :
      h.Descends c o ∧ o ≠ c := by
    rw [hkind] at hown
    exact source_ancestral ho hp hdp hown
  refine ⟨fun e he f hf _ => ?_, fun e he o howner => ?_, hsource.classes⟩
  · have hfamily := hsource.families e he
    exact ⟨hfamily.lt f hf, hfamily.name f hf, fun o howner =>
      hfits o ((hsource.functions e he f hf).owner o howner)⟩
  · exact hfits o (hsource.vars e he o howner)

theorem gathered_offers (ho : h.Owned modules) (hl : h.Linked) (hd : h.Distinct)
    (hp : p ∈ (h.classAt c).supers) {name : String} {family : List OverloadId}
    (hfamily : h.family? p name = some family) {f : OverloadId} (hf : f ∈ family) :
    ((h.gathered c).scopeAt h.scopes.size).Offers h name f := by
  have hsource := scope_mem_sources hp
  unfold gathered
  rw [withShadow_sources ho]
  refine mergeAll_offers (h := h.withShadow c) hd (fun s hs => (mem_sources ho hl hs).1) ?_ hsource
    ?_ hf
  · exact Nat.lt_of_lt_of_eq (Nat.lt_succ_self _) (size_push _).symm
  · rw [withShadow_scopeAt, if_neg (mem_sources ho hl hsource).1]
    exact mem_of_find? hfamily

end Ancestors

/-! ### Members are where they may be -/

section Owned

variable {h h' : Heap} {modules : List (String × ClassId)} {c : ClassId}

section

variable (ht : h.TakesOver c h')
include ht

theorem TakesOver.overloadAt (f : OverloadId) : h'.overloadAt f = h.overloadAt f := by
  unfold Heap.overloadAt
  rw [ht.overloads]

theorem TakesOver.apart {family : List OverloadId} (hf : h.Apart family) : h'.Apart family := by
  unfold Heap.Apart sameShape
  simp only [ht.overloadAt]
  exact hf

theorem TakesOver.extends (hg : h.Grows h') (hnone : (h.classAt c).ancestors = none) :
    h.Extends modules h' modules :=
  { Extends.refl h modules with
    grows := hg
    supers := fun d _ => ht.supers d
    name := ht.name
    kept := fun d g hd => by
      have hdc : d ≠ c := fun hdc => by
        rw [hdc, hnone] at hd
        cases hd
      rw [ht.ancestors, if_neg hdc]
      exact hd
    fresh := fun d g hd => by
      rw [ht.ancestors] at hd
      split at hd
      · cases hd
        exact .inr (Nat.le_refl _)
      · exact .inl hd }

theorem TakesOver.shadow_owned (he : h.Extends modules h' modules) (ho : h.Owned modules)
    (hl : h.Linked) (hc : c < h.classes.size) :
    (h'.scopeAt h.scopes.size).Owned h' modules := by
  rw [ht.shadowScope]
  have hkind := gathered_kind (c := c) ho hl
  have hevery := gathered_every (c := c) ho hl
  have hshadow : (h'.classAt c).ancestors = some h.classes.size := by rw [ht.ancestors, if_pos rfl]
  have hfits (o : ClassId) (hdo : h.Descends c o ∧ o ≠ c) : h'.Fits modules h.classes.size o := by
    refine ⟨fun hn => absurd hshadow (hn.shadow c), fun d hd => ?_, fun e hm => ?_⟩
    · -- No other class has its ancestors' members there.
      have hdc : d = c := by
        by_contra hdc
        rw [ht.ancestors, if_neg hdc] at hd
        exact Nat.lt_irrefl _ (ho.shadows d _ hd)
      rw [hdc]
      exact ⟨hdo.1.extends ho he hc, hdo.2⟩
    · exact Nat.ne_of_lt (ho.modules e hm).lt
  refine ⟨fun d hd => ?_, fun e hm => (hevery.classes e hm).extends he, fun e hm => ?_,
    fun e hm f hf => ⟨fun o howner => ?_, fun d hd hn => ?_⟩, fun e hm o howner => ?_⟩
  · rw [hkind] at hd
    cases hd
    rw [ht.classes]
    exact Nat.lt_succ_self _
  · refine ⟨fun f hf => ?_, fun f hf => ?_, ht.apart (gathered_apart ho hl e hm)⟩
    · rw [ht.overloads]
      exact (hevery.functions e hm f hf).1
    · rw [ht.overloadAt]
      exact (hevery.functions e hm f hf).2.1
  · rw [ht.overloadAt] at howner
    rw [hkind]
    exact hfits o ((hevery.functions e hm f hf).2.2 o howner)
  · rw [hkind] at hd
    cases hd
    exact absurd hshadow (hn.shadow c)
  · rw [hkind]
    exact hfits o (hevery.vars e hm o howner)

theorem TakesOver.own_every (ho : h.Owned modules) (hl : h.Linked) (hn : h.Named c) :
    (h'.scopeAt (h.classAt c).scope).Every
      (fun name f => f < h.overloads.size ∧ (h.overloadAt f).name = name ∧
        ∀ o, (h.overloadAt f).owner = some o →
          h.Descends c o ∧ (o ≠ c → h.isConstructor (h.overloadAt f) = false))
      (fun _ v => ∀ o, v.owner = some o → h.Descends c o) fun _ d => h.Named d := by
  rw [ht.ownScope]
  have hkind := (hl.classes c hn.lt).kind
  have hown := ho.scopes (h.classAt c).scope
  have hfits (o : ClassId) (hmay : h.MayOwn modules (h.scopeAt (h.classAt c).scope).kind o) :
      h.Descends c o := by
    rw [hkind] at hmay
    exact Fits.member hmay hn
  have hevery := gathered_every (c := c) ho hl
  refine merge_every ⟨fun e hm f hf => ?_, fun e hm o howner => ?_, hown.classes⟩
    ⟨fun e hm f hf hskip => ?_, fun e hm o howner => (hevery.vars e hm o howner).1, hevery.classes⟩
  · have hfamily := hown.families e hm
    have hhold := hown.functions e hm f hf
    exact ⟨hfamily.lt f hf, hfamily.name f hf, fun o howner =>
      ⟨hfits o (hhold.owner o howner), hhold.constructor c hkind hn o howner⟩⟩
  · exact hfits o (hown.vars e hm o howner)
  · -- A constructor of an ancestor would have been skipped.
    have hsame := h.gathered_sameBut c
    obtain ⟨hlt, hname, howner⟩ := hevery.functions e hm f hf
    refine ⟨hlt, hname, fun o ho' => ⟨(howner o ho').1, fun _ => ?_⟩⟩
    have hshadowed : h.Leads (h.withShadow c) := by
      refine newClass_leads hl _ _ fun p hp => ?_
      have hs := (hl.classes c hn.lt).scope
      exact Nat.lt_trans ((hl.scopes _ hs).parent p hp) hs
    have hext := newClass_extends modules hshadowed rfl
    have hconstructor : (h.gathered c).isConstructor (h.overloadAt f) =
        h.isConstructor (h.overloadAt f) := by
      rw [hsame.isConstructor]
      refine isConstructor_extends hext fun o ho' => ?_
      exact Nat.lt_of_le_of_lt ((howner o ho').1.le ho) hn.lt
    have hoverload : (h.gathered c).overloadAt f = h.overloadAt f := hsame.overloadAt f
    simp_all

theorem TakesOver.own_owned (he : h.Extends modules h' modules) (ho : h.Owned modules)
    (hl : h.Linked) (hn : h.Named c) (hmod : ∀ e ∈ modules, e.2 ≠ c) :
    (h'.scopeAt (h.classAt c).scope).Owned h' modules := by
  have hevery := ht.own_every ho hl hn
  have hkind : (h'.scopeAt (h.classAt c).scope).kind = .classBody c := by
    rw [he.grows.kind _ (hl.classes c hn.lt).scope]
    exact (hl.classes c hn.lt).kind
  have hapart : (h'.scopeAt (h.classAt c).scope).Apart h := by
    have hsame : ∀ family, (h.gathered c).Apart family ↔ h.Apart family :=
      (h.gathered_sameBut c).apart
    rw [ht.ownScope]
    have hthere : (h.scopeAt (h.classAt c).scope).Apart (h.gathered c) := fun e hm =>
      (hsame e.2).mpr ((ho.scopes _).families e hm).apart
    exact fun e hm => (hsame e.2).mp (merge_apart .keep _ hthere e hm)
  have hfits (o : ClassId) (hdo : h.Descends c o) : h'.Fits modules c o :=
    ⟨fun _ => hdo.extends ho he hn.lt, fun d hd => absurd hd ((hn.extends he).shadow d), hmod⟩
  refine ⟨fun d hd => ?_, fun e hm => (hevery.classes e hm).extends he, fun e hm => ?_,
    fun e hm f hf => ⟨fun o howner => ?_, fun d hd _ o howner hne => ?_⟩, fun e hm o howner => ?_⟩
  · rw [hkind] at hd
    cases hd
    exact (hn.extends he).lt
  · refine ⟨fun f hf => ?_, fun f hf => ?_, ht.apart (hapart e hm)⟩
    · rw [ht.overloads]
      exact (hevery.functions e hm f hf).1
    · rw [ht.overloadAt]
      exact (hevery.functions e hm f hf).2.1
  · rw [ht.overloadAt] at howner
    rw [hkind]
    exact hfits o ((hevery.functions e hm f hf).2.2 o howner).1
  · rw [hkind] at hd
    cases hd
    have howners := (hevery.functions e hm f hf).2.2
    rw [ht.overloadAt] at howner ⊢
    rw [isConstructor_extends he fun o ho' =>
      Nat.lt_of_le_of_lt ((howners o ho').1.le ho) hn.lt]
    exact (howners o howner).2 hne
  · rw [hkind]
    exact hfits o (hevery.vars e hm o howner)

end

theorem flatten_owned (ho : h.Owned modules) (hl : h.Linked) (hn : h.Named c)
    (hnone : (h.classAt c).ancestors = none) (hmod : ∀ e ∈ modules, e.2 ≠ c) :
    (h.flatten c).Owned modules ∧ h.Extends modules (h.flatten c) modules ∧
      ∀ d, d ≠ c → ((h.flatten c).classAt d).ancestors = (h.classAt d).ancestors := by
  by_cases hs : (h.classAt c).supers = []
  · rw [flatten_of_supers_nil hs]
    exact ⟨ho, .refl h modules, fun _ _ => rfl⟩
  have ht := flatten_takesOver hl hn.lt hs
  have he : h.Extends modules (h.flatten c) modules := ht.extends (flatten_leads hl c).grows hnone
  refine ⟨ho.of_extends he (fun s => ?_) (fun d _ p hp => ?_) (fun d g hd _ => ?_)
    fun e hm => .inl hm, he, fun d hd => ?_⟩
  · by_cases hnew : s = h.scopes.size
    · rw [hnew]
      exact .inr (ht.shadow_owned he ho hl hn.lt)
    by_cases hown : s = (h.classAt c).scope
    · rw [hown]
      exact .inr (ht.own_owned he ho hl hn hmod)
    · exact .inl (ht.otherScope s hnew hown)
  · rw [ht.supers] at hp
    exact ⟨(ho.supers d p hp).1, (ho.supers d p hp).2.extends he⟩
  · rw [ht.ancestors] at hd
    rw [ht.classes]
    split at hd
    · cases hd
      exact Nat.lt_succ_self _
    · exact Nat.lt_succ_of_lt (ho.shadows d g hd)
  · rw [ht.ancestors, if_neg hd]

end Owned

/-! ### What a class has in the end -/

def HasFrom (h : Heap) (c o : ClassId) : Prop :=
  (∃ name family, h.family? c name = some family ∧
    ∃ f ∈ family, (h.overloadAt f).owner = some o) ∨
  ∃ name v, h.classVariable? c name = some v ∧ v.owner = some o

def overloadLike? (h : Heap) (c : ClassId) (name : String) (f : OverloadId) : Option OverloadId :=
  ((h.family? c name).getD []).find? (h.sameShape · f)

/-- What a class has when it has taken over the members of its super classes. -/
structure Inherited (h : Heap) (c : ClassId) (h' : Heap) : Prop where
  declared : ∀ o, h'.HasFrom c o → h'.Descends c o
  ancestral : ∀ g, (h'.classAt c).ancestors = some g → ∀ o, h'.HasFrom g o →
    h'.Descends c o ∧ o ≠ c
  functions : ∀ name family, h.family? c name = some family → ∀ f ∈ family,
    h'.overloadLike? c name f = some f
  vars : ∀ name v, h.classVariable? c name = some v → h'.classVariable? c name = some v
  inherited : ∀ p ∈ (h'.classAt c).supers, ∀ name family, h'.family? p name = some family →
    ∀ f ∈ family, (∀ a, h'.Descends c a → a ≠ c → h'.className a ≠ name) →
      ∃ own, h'.family? c name = some own ∧
        ∃ g ∈ own, (h'.overloadAt g).name = name ∧ (h'.overloadAt g).Alike (h'.overloadAt f)
  distinct : ∀ name family, h'.family? c name = some family →
    family.Pairwise fun f g => ¬ (h'.overloadAt f).Alike (h'.overloadAt g)
  constructors : ∀ name family, h'.family? c name = some family → ∀ f ∈ family,
    ∀ a, h'.Descends c a → a ≠ c →
      ¬ ((h'.overloadAt f).owner = some a ∧ h'.isConstructor (h'.overloadAt f) = true)

section Inherited

variable {h h' : Heap} {modules : List (String × ClassId)} {c : ClassId} {name : String}
variable {f : OverloadId}

theorem HasFrom.fits (ho : h.Owned modules) (hl : h.Linked) (hc : c < h.classes.size)
    {o : ClassId} (hfrom : h.HasFrom c o) : h.Fits modules c o := by
  have hscope := ho.scopes (h.classAt c).scope
  have hkind := (hl.classes c hc).kind
  rcases hfrom with ⟨name, family, hfamily, f, hf, howner⟩ | ⟨name, v, hv, howner⟩
  · have hmay := (hscope.functions _ (mem_of_find? hfamily) f hf).owner o howner
    rw [hkind] at hmay
    exact hmay
  · have hmay := hscope.vars _ (mem_of_find? hv) o howner
    rw [hkind] at hmay
    exact hmay

theorem Apart.find? {family : List OverloadId} (hfamily : h.Apart family)
    (hf : f ∈ family) : family.find? (h.sameShape · f) = some f := by
  induction family with
  | nil => cases hf
  | cons g rest ih =>
    obtain ⟨hfirst, hrest⟩ := pairwise_cons.mp hfamily
    rcases mem_cons.mp hf with rfl | hf
    · exact find?_cons_of_pos (Overload.sameShape_refl _)
    · rw [find?_cons_of_neg (by rw [hfirst f hf]; exact Bool.false_ne_true)]
      exact ih hrest hf

theorem TakesOver.family (ht : h.TakesOver c h') (hc : c < h.classes.size)
    {family : List OverloadId} (hfamily : h.family? c name = some family) :
    ∃ more, h'.family? c name = some (family ++ more) := by
  unfold family?
  rw [ht.scope c hc, ht.ownScope]
  exact merge_keep_family hfamily

theorem TakesOver.classVariable (ht : h.TakesOver c h') (hc : c < h.classes.size)
    {v : Variable} (hv : h.classVariable? c name = some v) : h'.classVariable? c name = some v := by
  unfold classVariable?
  rw [ht.scope c hc, ht.ownScope]
  exact merge_keep_variable hv

theorem TakesOver.inherited (ht : h.TakesOver c h') (ho : h.Owned modules) (hl : h.Linked)
    (hn : h.Named c) (hd : h.Distinct) {p : ClassId} (hp : p ∈ (h.classAt c).supers)
    {family : List OverloadId} (hfamily : h.family? p name = some family) (hf : f ∈ family)
    (hname : ∀ a, h.Descends c a → a ≠ c → h.className a ≠ name) :
    (h'.scopeAt (h.classAt c).scope).Offers h name f := by
  have hsame := h.gathered_sameBut c
  obtain ⟨gathered, hgathered, g, hg, hgf⟩ := gathered_offers ho hl hd hp hfamily hf
  obtain ⟨_, hgname, howner⟩ := (gathered_every (c := c) ho hl).functions _
    (mem_of_find? hgathered) g hg
  have hconstructor : (h.gathered c).isConstructor (h.overloadAt g) = false := by
    unfold isConstructor
    cases hown : (h.overloadAt g).owner with
    | none => rfl
    | some o =>
      obtain ⟨hdo, hne⟩ := howner o hown
      have hlt : o ≠ h.classes.size := Nat.ne_of_lt (Nat.lt_of_le_of_lt (hdo.le ho) hn.lt)
      have hclass : (h.gathered c).className o = h.className o := by
        unfold className
        rw [hsame.classAt, withShadow_classAt, if_neg hlt]
      simp_all
  have hoverload (x : OverloadId) : (h.gathered c).overloadAt x = h.overloadAt x :=
    hsame.overloadAt x
  have hdistinct : (h.gathered c).Distinct := hsame.distinct hd
  have htaken : (h'.scopeAt (h.classAt c).scope).Offers (h.gathered c) name g := by
    rw [ht.ownScope]
    refine merge_offers_source hdistinct _ (mem_of_find? hgathered) hg fun hskip => ?_
    rw [hoverload, hconstructor] at hskip
    exact Bool.false_ne_true hskip.2
  obtain ⟨own, hown, x, hx, hxg⟩ := htaken
  rw [hoverload, hoverload] at hxg
  exact ⟨own, hown, x, hx, hxg.trans hgf⟩

theorem flatten_inherited (ho : h.Owned modules) (hl : h.Linked) (hn : h.Named c)
    (hnone : (h.classAt c).ancestors = none) (hmod : ∀ e ∈ modules, e.2 ≠ c) (hd : h.Distinct) :
    h.Inherited c (h.flatten c) := by
  obtain ⟨howned, he, _⟩ := flatten_owned ho hl hn hnone hmod
  have hlead := flatten_leads hl c
  have hnamed := hn.extends he
  have hkind := (hlead.linked.classes c hnamed.lt).kind
  have hscope := howned.scopes ((h.flatten c).classAt c).scope
  -- Whether there is anything to take over makes a difference to what was there.
  have hkept : (h.classAt c).supers = [] ∧ h.flatten c = h ∨
      (h.classAt c).supers ≠ [] ∧ h.TakesOver c (h.flatten c) := by
    by_cases hs : (h.classAt c).supers = []
    · exact .inl ⟨hs, flatten_of_supers_nil hs⟩
    · exact .inr ⟨hs, flatten_takesOver hl hn.lt hs⟩
  have hoverload (f : OverloadId) : (h.flatten c).overloadAt f = h.overloadAt f := by
    rcases hkept with ⟨_, hsame⟩ | ⟨_, ht⟩
    · rw [hsame]
    · exact ht.overloadAt f
  have hdistinct : (h.flatten c).Distinct := fun f => by
    rw [hoverload]
    exact hd f
  constructor
  · exact fun o hfrom => (hfrom.fits howned hlead.linked hnamed.lt).member hnamed
  · intro g hg o hfrom
    exact (hfrom.fits howned hlead.linked (howned.shadows c g hg)).shadow c hg
  · intro name family hfamily f hf
    obtain ⟨more, hmore⟩ : ∃ more, (h.flatten c).family? c name = some (family ++ more) := by
      rcases hkept with ⟨_, hsame⟩ | ⟨_, ht⟩
      · simp_all
      · exact ht.family hn.lt hfamily
    unfold overloadLike?
    rw [hmore]
    exact (hscope.families _ (mem_of_find? hmore)).apart.find?
      (mem_append_left more hf)
  · intro name v hv
    rcases hkept with ⟨_, hsame⟩ | ⟨_, ht⟩
    · rw [hsame]
      exact hv
    · exact ht.classVariable hn.lt hv
  · intro p hp name family hfamily f hf hname
    rcases hkept with ⟨hs, hsame⟩ | ⟨_, ht⟩
    · rw [hsame, hs] at hp
      cases hp
    rw [ht.supers] at hp
    obtain ⟨hpc, hpn⟩ := ho.supers c p hp
    -- The super class has what it had.
    have hscopes : (h.classAt p).scope ≠ (h.classAt c).scope := fun hsc => by
      have hpk := (hl.classes p hpn.lt).kind
      rw [hsc, (hl.classes c hn.lt).kind] at hpk
      cases hpk
      exact Nat.lt_irrefl _ hpc
    have hsuper : h.family? p name = some family := by
      unfold family? at hfamily ⊢
      rw [ht.scope p hpn.lt, ht.otherScope _ (Nat.ne_of_lt (hl.classes p hpn.lt).scope) hscopes]
        at hfamily
      exact hfamily
    have hold (a : ClassId) (ha : h.Descends c a) (hne : a ≠ c) : h.className a ≠ name := by
      have halt := Nat.lt_of_le_of_lt (ha.le ho) hn.lt
      have hsame : (h.flatten c).className a = h.className a := he.name a halt
      rw [← hsame]
      exact hname a (ha.extends ho he hn.lt) hne
    obtain ⟨own, hown, g, hg, hgf⟩ := ht.inherited ho hl hn hd hp hsuper hf hold
    have hfound : (h.flatten c).family? c name = some own := by
      unfold family?
      rw [ht.scope c hn.lt]
      exact hown
    refine ⟨own, hfound, g, hg, ?_, ?_⟩
    · exact (hscope.families _ (mem_of_find? hfound)).name g hg
    · rw [hoverload, hoverload]
      exact hgf
  · intro name family hfamily
    refine (hscope.families _ (mem_of_find? hfamily)).apart.imp fun {f g} hfg halike => ?_
    have hshape := (Overload.sameShape_iff (hdistinct f) (hdistinct g)).mpr halike
    exact Bool.false_ne_true (hfg.symm.trans hshape)
  · rintro name family hfamily f hf a _ hne ⟨howner, hconstructor⟩
    have hhold := hscope.functions _ (mem_of_find? hfamily) f hf
    rw [hhold.constructor c hkind hnamed a howner hne] at hconstructor
    cases hconstructor

end Inherited

end Heap

end ClassScript
