import ClassScript.Proofs.Maturing

/-!
# Inherited Fields

A class that takes over fields joins the lists of its super classes, leaves out what it has seen
before, and appends its own. If it and its ancestors did so in order, its list has each field
once, and after those of the ancestors of the class that declared it. The order is disturbed
only by a class that is declared in the body of one of its super classes.
-/

namespace ClassScript

open List Heap

variable {fs : List FieldInit} {f : FieldInit} {h : Heap} {m m₀ : Machine}

/-! ## Lists of fields -/

def Heap.ownFields (h : Heap) (c : ClassId) : List FieldInit :=
  (h.classAt c).fields.filter (·.owner == c)

def Heap.Preceded (h : Heap) (fs : List FieldInit) (f : FieldInit) : Prop :=
  ∀ a, h.Descends f.owner a → a ≠ f.owner → h.ownFields a ⊆ fs

def Heap.AncestorsFirst (h : Heap) (fs : List FieldInit) : Prop :=
  ∀ before f after, fs = before ++ f :: after → h.Preceded before f

def FieldInit.key (f : FieldInit) : String × ClassId :=
  (f.name, f.owner)

def FieldInit.firsts (fs : List FieldInit) : List FieldInit :=
  fs.foldl (fun seen f =>
    if seen.any fun g => g.name == f.name && g.owner == f.owner then seen else seen ++ [f]) []

namespace Heap

variable {h : Heap} {fs gs : List FieldInit} {f : FieldInit}

theorem Preceded.mono (hf : h.Preceded fs f) (hfs : fs ⊆ gs) : h.Preceded gs f :=
  fun a ha hne => List.Subset.trans (hf a ha hne) hfs

theorem AncestorsFirst.append (hfs : h.AncestorsFirst fs)
    (hgs : ∀ before g after, gs = before ++ g :: after → h.Preceded (fs ++ before) g) :
    h.AncestorsFirst (fs ++ gs) := by
  intro before f after hsplit
  rcases append_eq_append_iff.mp hsplit with ⟨rest, rfl, hrest⟩ | ⟨rest, rfl, hrest⟩
  · exact hgs rest f after hrest
  · cases rest with
    | nil => simpa using hgs [] f after hrest.symm
    | cons g rest => exact hfs before f rest (by simp_all)

theorem ancestorsFirst_concat :
    h.AncestorsFirst (fs ++ [f]) ↔ h.AncestorsFirst fs ∧ h.Preceded fs f := by
  refine ⟨fun hfs => ⟨fun before g after hsplit => ?_, hfs fs f [] rfl⟩, fun ⟨hfs, hf⟩ => ?_⟩
  · exact hfs before g (after ++ [f]) (by simp [hsplit])
  · refine hfs.append fun before g after hsplit => ?_
    cases before with
    | nil => simp_all
    | cons => simp at hsplit

end Heap

namespace FieldInit

theorem firsts_concat (fs : List FieldInit) (f : FieldInit) : firsts (fs ++ [f]) =
    if f.key ∈ (firsts fs).map key then firsts fs else firsts fs ++ [f] := by
  have hany : ((firsts fs).any fun g => g.name == f.name && g.owner == f.owner) = true ↔
      f.key ∈ (firsts fs).map key := by
    simp only [any_eq_true, Bool.and_eq_true, beq_iff_eq, mem_map, key, Prod.mk.injEq]
  unfold firsts
  rw [foldl_append]
  exact if_congr hany rfl rfl

theorem mem_of_mem_firsts (hf : f ∈ firsts fs) : f ∈ fs := by
  induction fs using reverseRecOn with
  | nil => exact hf
  | append_singleton fs g ih =>
    rw [firsts_concat] at hf
    split at hf
    · exact mem_append_left _ (ih hf)
    · exact (mem_append.mp hf).elim (fun hf => mem_append_left _ (ih hf))
        (mem_append_right fs)

theorem nodup_firsts (fs : List FieldInit) : ((firsts fs).map key).Nodup := by
  induction fs using reverseRecOn with
  | nil => exact nodup_nil
  | append_singleton fs f ih =>
    rw [firsts_concat]
    split
    · exact ih
    · next hnew => simpa using ih.concat hnew

theorem mem_firsts (hfs : ∀ f ∈ fs, ∀ g ∈ fs, f.key = g.key → f = g)
    (hf : f ∈ fs) : f ∈ firsts fs := by
  induction fs using reverseRecOn with
  | nil => exact hf
  | append_singleton fs g ih =>
    rw [firsts_concat]
    rcases mem_append.mp hf with hf | hf
    · have hold := ih (fun a ha b hb => hfs a (by simp [ha]) b (by simp [hb])) hf
      split
      · exact hold
      · exact mem_append_left _ hold
    · obtain rfl := mem_singleton.mp hf
      split
      · next hseen =>
        obtain ⟨g, hg, hkey⟩ := mem_map.mp hseen
        rwa [hfs f (by simp) g (by simp [mem_of_mem_firsts hg]) hkey.symm]
      · exact mem_append_right _ hf

theorem ancestorsFirst_firsts
    (hfs : ∀ f ∈ fs, ∀ g ∈ fs, f.key = g.key → f = g) (hfirst : h.AncestorsFirst fs) :
    h.AncestorsFirst (firsts fs) := by
  induction fs using reverseRecOn with
  | nil => exact hfirst
  | append_singleton fs f ih =>
    have hinit : ∀ f ∈ fs, ∀ g ∈ fs, f.key = g.key → f = g :=
      fun a ha b hb => hfs a (by simp [ha]) b (by simp [hb])
    obtain ⟨hfirst, hf⟩ := Heap.ancestorsFirst_concat.mp hfirst
    rw [firsts_concat]
    split
    · exact ih hinit hfirst
    · refine Heap.ancestorsFirst_concat.mpr ⟨ih hinit hfirst, fun a ha hne g hg => ?_⟩
      exact mem_firsts hinit (hf a ha hne hg)

end FieldInit

/-! ## Fields of classes -/

/-- A class has taken over fields before another class was there, or inherits from nothing. -/
structure Heap.Passed (h : Heap) (p g : ClassId) : Prop where
  finished : h.Finished p g
  bare : (h.classAt p).ancestors = none → (h.classAt p).supers = []

/-- Classes have the fields that they have declared, and if they have taken over fields, those of
    their super classes. -/
structure Heap.Fielded (h : Heap) : Prop where
  bare : ∀ c, (h.classAt c).supers = [] →
    (h.classAt c).isStatic = true ∨ (h.classAt c).id = ClassId.object
  root : ∀ c, (h.classAt c).supers = [] → (h.classAt c).fields = []
  own : ∀ c, (h.classAt c).ancestors = none → ∀ f ∈ (h.classAt c).fields, f.owner = c
  older : ∀ c, ∀ f ∈ (h.classAt c).fields, f.owner ≤ c
  once : ∀ c, ((h.ownFields c).map FieldInit.name).Nodup
  taken : ∀ c g, (h.classAt c).ancestors = some g → (∀ p ∈ (h.classAt c).supers, h.Passed p g) →
    (h.classAt c).fields = h.inheritedFields (h.classAt c).supers ++ h.ownFields c

namespace Heap

variable {h h' : Heap} {modules modules' : List (String × ClassId)} {c : ClassId} {f : FieldInit}
variable {p g : ClassId}

theorem mem_ownFields : f ∈ h.ownFields c ↔ f ∈ (h.classAt c).fields ∧ f.owner = c := by
  simp [ownFields]

inductive FieldStep (h h' : Heap) (c : ClassId) : Prop
  | same (hfields : (h'.classAt c).fields = (h.classAt c).fields)
      (hancestors : (h'.classAt c).ancestors = (h.classAt c).ancestors)
  | field (f : FieldInit) (howner : f.owner = c) (hsupers : (h'.classAt c).supers ≠ [])
      (hnone : (h.classAt c).ancestors = none) (hnone' : (h'.classAt c).ancestors = none)
      (hnew : ∀ g ∈ (h.classAt c).fields, g.name ≠ f.name)
      (hfields : (h'.classAt c).fields = (h.classAt c).fields ++ [f])
  | taken (hlt : c < h.classes.size) (hnone : (h.classAt c).ancestors = none)
      (hsome : (h'.classAt c).ancestors = some h.classes.size)
      (hfields : (h'.classAt c).fields =
        h.inheritedFields (h.classAt c).supers ++ (h.classAt c).fields)

theorem Fielded.step (hf : h.Fielded) (hm : h.Matures modules h' modules') (c : ClassId) :
    h.FieldStep h' c := by
  have hbecomes := hm.classes c
  generalize hk : h'.classAt c = k at hbecomes
  cases hbecomes with
  | same => exact .same (congrArg _ hk) (congrArg _ hk)
  | new _ hc hnone hfields =>
    have hdefault : h.classAt c = default := getD_of_size_le (Nat.le_of_eq hc.symm) _
    exact .same (by rw [hk, hfields, hdefault]; rfl) (by rw [hk, hnone, hdefault]; rfl)
  | field f howner hlt hobject hnone =>
    by_cases hkept : ((h.classAt c).isStatic || (h.classAt c).fields.any (·.name == f.name)) = true
    · exact .same (by rw [hk]; exact if_pos hkept) (by rw [hk]; rfl)
    · have hfields : (h'.classAt c).fields = (h.classAt c).fields ++ [f] := by
        rw [hk]
        exact if_neg hkept
      simp only [Bool.or_eq_true, not_or, any_eq_true, beq_iff_eq] at hkept
      refine .field f howner (fun hsupers => ?_) hnone (by rw [hk]; exact hnone)
        (fun g hg hname => hkept.2 ⟨g, hg, hname⟩) hfields
      -- A class that inherits from nothing is static, and gets no fields.
      rcases hf.bare c (by rw [hk] at hsupers; exact hsupers) with hstatic | hid
      · exact hkept.1 hstatic
      · exact hobject ((hm.linked.classes c hlt).id.symm.trans hid)
  | taken hlt hnone => exact .taken hlt hnone (by rw [hk]) (by rw [hk])

theorem mem_inheritedFields {supers : List ClassId} (hf : f ∈ h.inheritedFields supers) :
    ∃ p ∈ supers, f ∈ (h.classAt p).fields :=
  mem_flatMap.mp (FieldInit.mem_of_mem_firsts hf)

theorem Fielded.ownFields_taken (hf : h.Fielded) (ho : h.Owned modules)
    (hnone : (h.classAt c).ancestors = none) (hfields : (h'.classAt c).fields =
      h.inheritedFields (h.classAt c).supers ++ (h.classAt c).fields) :
    h'.ownFields c = (h.classAt c).fields := by
  unfold ownFields
  rw [hfields, filter_append, filter_eq_nil_iff.mpr, filter_eq_self.mpr]
  · rfl
  · exact fun f hmem => beq_iff_eq.mpr (hf.own c hnone f hmem)
  · intro f hmem howner
    obtain ⟨p, hp, hmem⟩ := mem_inheritedFields hmem
    have hlt := Nat.lt_of_le_of_lt (hf.older p f hmem) (ho.supers c p hp).1
    exact Nat.ne_of_lt hlt (beq_iff_eq.mp howner)

theorem Fielded.ownFields_step (hf : h.Fielded) (ho : h.Owned modules) (hstep : h.FieldStep h' c) :
    h'.ownFields c = h.ownFields c ∨ ∃ f, (∀ g ∈ h.ownFields c, g.name ≠ f.name) ∧
      h'.ownFields c = h.ownFields c ++ [f] := by
  cases hstep with
  | same hfields =>
    unfold ownFields
    rw [hfields]
    exact .inl rfl
  | field f howner _ _ _ hnew hfields =>
    refine .inr ⟨f, fun g hg => hnew g (mem_ownFields.mp hg).1, ?_⟩
    unfold ownFields
    rw [hfields, filter_append]
    simp [howner]
  | taken _ hnone _ hfields =>
    refine .inl ((hf.ownFields_taken ho hnone hfields).trans (filter_eq_self.mpr ?_).symm)
    exact fun f hmem => beq_iff_eq.mpr (hf.own c hnone f hmem)

theorem FieldStep.kept (hstep : h.FieldStep h' p) (hp : h'.Passed p g)
    (hg : g ≤ h.classes.size) : (h'.classAt p).fields = (h.classAt p).fields := by
  cases hstep with
  | same hfields => exact hfields
  | field _ _ hsupers _ hnone => exact absurd (hp.bare hnone) hsupers
  | taken _ _ hsome => exact absurd (Nat.lt_of_lt_of_le (hp.finished _ hsome) hg) (Nat.lt_irrefl _)

theorem Passed.before (hp : h'.Passed p g) (hm : h.Matures modules h' modules')
    (hlt : p < h.classes.size) (hg : g < h.classes.size) : h.Passed p g := by
  refine ⟨fun d hd => hp.finished d (hm.extend.kept p d hd), fun hnone => ?_⟩
  rw [← hm.extend.supers p hlt]
  refine hp.bare ?_
  cases hsome : (h'.classAt p).ancestors with
  | none => rfl
  | some d =>
    rcases hm.extend.fresh p d hsome with hold | hnew
    · exact absurd (hnone.symm.trans hold) nofun
    · exact absurd (Nat.lt_trans (hp.finished d hsome) hg) (Nat.not_lt.mpr hnew)

theorem Fielded.matures (hf : h.Fielded) (hm : h.Matures modules h' modules') : h'.Fielded where
  bare c hsupers := by
    have hbecomes := hm.classes c
    generalize h'.classAt c = k at hbecomes hsupers ⊢
    cases hbecomes with
    | same | field | taken => exact hf.bare c hsupers
    | new _ _ _ _ _ hroot => exact .inl (hroot hsupers)
  root c hsupers := by
    have hold : (h.classAt c).supers = [] ∨ (h'.classAt c).fields = [] := by
      have hbecomes := hm.classes c
      generalize h'.classAt c = k at hbecomes hsupers ⊢
      cases hbecomes with
      | same | field | taken => exact .inl hsupers
      | new _ _ _ hfields => exact .inr hfields
    rcases hold with hold | hnone
    · cases hf.step hm c with
      | same hfields => exact hfields.trans (hf.root c hold)
      | field _ _ hne => exact absurd hsupers hne
      | taken _ _ _ hfields =>
        rw [hfields, hold, hf.root c hold]
        rfl
    · exact hnone
  own c hnone' := by
    cases hf.step hm c with
    | same hfields hancestors =>
      rw [hfields]
      exact hf.own c (hancestors.symm.trans hnone')
    | field f howner _ hnone _ _ hfields =>
      rw [hfields]
      exact forall_mem_append.mpr ⟨hf.own c hnone, forall_mem_singleton.mpr howner⟩
    | taken _ _ hsome => exact absurd (hsome.symm.trans hnone') nofun
  older c := by
    cases hf.step hm c with
    | same hfields =>
      rw [hfields]
      exact hf.older c
    | field f howner _ _ _ _ hfields =>
      rw [hfields]
      exact forall_mem_append.mpr ⟨hf.older c, forall_mem_singleton.mpr (Nat.le_of_eq howner)⟩
    | taken _ _ _ hfields =>
      rw [hfields]
      refine forall_mem_append.mpr ⟨fun f hmem => ?_, hf.older c⟩
      obtain ⟨p, hp, hmem⟩ := mem_inheritedFields hmem
      exact Nat.le_trans (hf.older p f hmem) (Nat.le_of_lt (hm.owned.supers c p hp).1)
  once c := by
    rcases hf.ownFields_step hm.owned (hf.step hm c) with hsame | ⟨f, hnew, hown⟩
    · rw [hsame]
      exact hf.once c
    · rw [hown, map_append]
      refine nodup_append.mpr ⟨hf.once c, nodup_singleton _, ?_⟩
      simpa using hnew
  taken c g hg hpassed := by
    have hinherited (hlt : c < h.classes.size) (hle : g ≤ h.classes.size) :
        h'.inheritedFields (h'.classAt c).supers = h.inheritedFields (h.classAt c).supers := by
      rw [hm.extend.supers c hlt]
      unfold inheritedFields
      refine congrArg FieldInit.firsts (flatMap_congr fun p hp => ?_)
      exact (hf.step hm p).kept (hpassed p (by rwa [hm.extend.supers c hlt])) hle
    cases hf.step hm c with
    | same hfields hancestors =>
      have hold := hancestors.symm.trans hg
      have hlt := lt_of_ancestors hold
      have hglt := hm.owned.shadows c g hold
      have hpassed' (p : ClassId) (hp : p ∈ (h.classAt c).supers) : h.Passed p g :=
        (hpassed p (by rwa [hm.extend.supers c hlt])).before hm (hm.owned.supers c p hp).2.lt hglt
      have hown : h'.ownFields c = h.ownFields c := congrArg (filter _) hfields
      rw [hinherited hlt (Nat.le_of_lt hglt), hfields, hown]
      exact hf.taken c g hold hpassed'
    | field _ _ _ _ hnone' => exact absurd (hnone'.symm.trans hg) nofun
    | taken hlt hnone hsome hfields =>
      have hsize : g = h.classes.size := Option.some.inj (hg.symm.trans hsome)
      rw [hinherited hlt (Nat.le_of_eq hsize), hf.ownFields_taken hm.owned hnone hfields, hfields]

theorem Fielded.mem_own (hf : h.Fielded) {g : FieldInit} {a b : ClassId} (hfa : f ∈ h.ownFields a)
    (hgb : g ∈ h.ownFields b) (hkey : f.key = g.key) : f = g := by
  have howner : f.owner = g.owner := congrArg Prod.snd hkey
  obtain rfl : a = b := (mem_ownFields.mp hfa).2.symm.trans (howner.trans (mem_ownFields.mp hgb).2)
  exact inj_on_of_nodup_map (hf.once a) hfa hgb (congrArg Prod.fst hkey)

/-- The fields of all ancestors, once each, with those of ancestors first. -/
structure Inherits (h : Heap) (c : ClassId) : Prop where
  mem : ∀ f, f ∈ (h.classAt c).fields ↔ ∃ a, h.Descends c a ∧ f ∈ h.ownFields a
  once : ((h.classAt c).fields.map FieldInit.key).Nodup
  order : h.AncestorsFirst (h.classAt c).fields

theorem Fielded.inherits_of_supers (hf : h.Fielded) (ho : h.Owned modules)
    (hsupers : ∀ p ∈ (h.classAt c).supers, h.Inherits p) (hfields : (h.classAt c).fields =
      h.inheritedFields (h.classAt c).supers ++ h.ownFields c) : h.Inherits c := by
  let joined := (h.classAt c).supers.flatMap fun p => (h.classAt p).fields
  have hmem (f : FieldInit) : f ∈ joined ↔
      ∃ p ∈ (h.classAt c).supers, ∃ a, h.Descends p a ∧ f ∈ h.ownFields a := by
    rw [mem_flatMap]
    exact exists_congr fun p => and_congr_right fun hp => (hsupers p hp).mem f
  have hsame : ∀ f ∈ joined, ∀ g ∈ joined, f.key = g.key → f = g := by
    intro f hfj g hgj
    obtain ⟨_, _, a, _, hfa⟩ := (hmem f).mp hfj
    obtain ⟨_, _, b, _, hgb⟩ := (hmem g).mp hgj
    exact hf.mem_own hfa hgb
  have hfirst : h.AncestorsFirst joined := by
    dsimp only [joined]
    generalize (h.classAt c).supers = supers at hsupers
    induction supers with
    | nil => exact fun before f after hsplit => absurd hsplit (by simp)
    | cons p rest ih =>
      refine (hsupers p mem_cons_self).order.append fun before g after hsplit => ?_
      exact (ih (fun q hq => hsupers q (mem_cons_of_mem p hq)) before g after hsplit).mono
        (subset_append_right _ _)
  have hinherited (f : FieldInit) : f ∈ h.inheritedFields (h.classAt c).supers ↔ f ∈ joined :=
    ⟨FieldInit.mem_of_mem_firsts, FieldInit.mem_firsts hsame⟩
  refine ⟨fun f => ?_, ?_, ?_⟩
  · rw [hfields, mem_append, hinherited, hmem]
    constructor
    · rintro (⟨p, hp, a, hpa, hfa⟩ | hfc)
      · exact ⟨a, .super hp hpa, hfa⟩
      · exact ⟨c, .self c, hfc⟩
    · rintro ⟨a, hca, hfa⟩
      cases hca with
      | self => exact .inr hfa
      | super hp hpa => exact .inl ⟨_, hp, a, hpa, hfa⟩
  · rw [hfields, map_append]
    refine nodup_append.mpr ⟨FieldInit.nodup_firsts joined, ?_, ?_⟩
    · exact List.Nodup.of_map Prod.fst (by simpa [FieldInit.key, Function.comp_def] using hf.once c)
    · -- What is inherited was declared by an older class.
      rintro _ hk _ hk' rfl
      obtain ⟨f, hfi, rfl⟩ := mem_map.mp hk
      obtain ⟨g, hgc, hkey⟩ := mem_map.mp hk'
      obtain ⟨p, hp, hfp⟩ := mem_inheritedFields hfi
      have howner : g.owner = f.owner := congrArg Prod.snd hkey
      have hle := hf.older p f hfp
      rw [← howner, (mem_ownFields.mp hgc).2] at hle
      exact absurd (ho.supers c p hp).1 (Nat.not_lt.mpr hle)
  · rw [hfields]
    refine (FieldInit.ancestorsFirst_firsts hsame hfirst).append fun before g after hsplit => ?_
    have hg : g ∈ h.ownFields c := by simp [hsplit]
    intro a ha hne f hfa
    rw [(mem_ownFields.mp hg).2] at ha hne
    cases ha with
    | self => exact absurd rfl hne
    | super hp hpa =>
      exact mem_append_left _ ((hinherited f).mpr ((hmem f).mpr ⟨_, hp, a, hpa, hfa⟩))

theorem Fielded.inherits (hf : h.Fielded) (ho : h.Owned modules) (c : ClassId) (hc : h.InOrder c) :
    h.Inherits c := by
  induction c using Nat.strongRecOn with
  | _ c ih =>
    have hsupers (p : ClassId) (hp : p ∈ (h.classAt c).supers) : h.Inherits p :=
      ih p (ho.supers c p hp).1 (hc.super hp)
    refine hf.inherits_of_supers ho hsupers ?_
    cases hancestors : (h.classAt c).ancestors with
    | none =>
      have hbare := (hc c (.self c)).1 hancestors
      unfold ownFields
      rw [hbare, hf.root c hbare]
      rfl
    | some g =>
      refine hf.taken c g hancestors fun p hp => ⟨(hc c (.self c)).2 g hancestors p hp, ?_⟩
      exact (hc p (.super hp (.self p))).1

end Heap

/-! ## Before a program runs -/

structure FieldInit.Constant where
  name : String
  span : Span
  value : Literal
  access : Access
  owner : ClassId
deriving DecidableEq

def FieldInit.constant? (f : FieldInit) : Option FieldInit.Constant :=
  match f.initializer with
  | some (.literal span value) => some ⟨f.name, span, value, f.access, f.owner⟩
  | _ => none

theorem FieldInit.eq_of_constant? {g : FieldInit} (hsame : f.constant? = g.constant?)
    (hf : f.constant? ≠ none) : f = g := by
  obtain ⟨name, initializer, access, owner⟩ := f
  obtain ⟨name', initializer', access', owner'⟩ := g
  unfold constant? at hsame hf
  grind

theorem FieldInit.eq_of_map_constant? {gs : List FieldInit}
    (hsame : fs.map constant? = gs.map constant?) (hfs : none ∉ fs.map constant?) : fs = gs := by
  induction fs generalizing gs with
  | nil => simpa using hsame.symm
  | cons f fs ih =>
    cases gs with
    | nil => cases hsame
    | cons g gs =>
      obtain ⟨hfirst, hrest⟩ := cons_eq_cons.mp hsame
      rw [map_cons, mem_cons, not_or] at hfs
      rw [FieldInit.eq_of_constant? hfirst (Ne.symm hfs.1), ih hrest hfs.2]

theorem World.heap_fielded : heap.2.Fielded := by
  have hbare : ∀ c, c < heap.2.classes.size → (heap.2.classAt c).supers = [] →
      ((heap.2.classAt c).isStatic = true ∨ (heap.2.classAt c).id = ClassId.object) ∧
        (heap.2.classAt c).fields.length = 0 := by
    decide +kernel
  have hown : ∀ c, c < heap.2.classes.size →
      (∀ f ∈ (heap.2.classAt c).fields, f.owner ≤ c ∧
        ((heap.2.classAt c).ancestors = none → f.owner = c)) ∧
      ((heap.2.ownFields c).map FieldInit.name).Nodup := by
    decide +kernel
  have htaken : ∀ c, c < heap.2.classes.size →
      (heap.2.classAt c).fields.map FieldInit.constant? =
        (heap.2.inheritedFields (heap.2.classAt c).supers ++ heap.2.ownFields c).map
          FieldInit.constant? := by
    decide +kernel
  have hliteral : ∀ c, c < heap.2.classes.size →
      none ∉ (heap.2.classAt c).fields.map FieldInit.constant? := by
    decide +kernel
  generalize heap.2 = h at hbare hown htaken hliteral ⊢
  have hdefault (c : ClassId) (hc : ¬ c < h.classes.size) : h.classAt c = default :=
    getD_of_size_le (Nat.not_lt.mp hc) _
  have hnew (c : ClassId) (hc : ¬ c < h.classes.size) : (h.classAt c).fields = [] := by
    rw [hdefault c hc]
    rfl
  refine ⟨fun c hs => ?_, fun c hs => ?_, fun c hnone f hf => ?_, fun c f hf => ?_, fun c => ?_,
    fun c g hg _ => ?_⟩
  · by_cases hc : c < h.classes.size
    · exact (hbare c hc hs).1
    · rw [hdefault c hc]
      exact .inr rfl
  · by_cases hc : c < h.classes.size
    · exact eq_nil_of_length_eq_zero (hbare c hc hs).2
    · exact hnew c hc
  all_goals by_cases hc : c < h.classes.size
  · exact ((hown c hc).1 f hf).2 hnone
  · rw [hnew c hc] at hf
    cases hf
  · exact ((hown c hc).1 f hf).1
  · rw [hnew c hc] at hf
    cases hf
  · exact (hown c hc).2
  · unfold Heap.ownFields
    rw [hnew c hc]
    exact nodup_nil
  · exact FieldInit.eq_of_map_constant? (htaken c hc) (hliteral c hc)
  · exact absurd (lt_of_ancestors hg) hc

/-! ## New instances -/

namespace Calling

/-- The fields of a new instance get their values one after the other. -/
inductive Equips (L : Level) (object : ObjectId) (scope : ScopeId) :
    List FieldInit → Machine → Outcome ObjectId → Prop
  | done (m : Machine) : Equips L object scope [] m (.done object m)
  | value {f : FieldInit} {rest : List FieldInit} {m m₁ : Machine} {v : Value}
      {o : Outcome ObjectId} (hv : fieldValue L object scope f m = .done v m₁)
      (hrest : Equips L object scope rest
        { m₁ with
          heap := m₁.heap.updateScope scope fun sc =>
            { sc with
              vars := sc.vars.insert f.name ⟨.slot v, false, false, f.access, some f.owner⟩ } } o) :
      Equips L object scope (f :: rest) m o
  | failed {f : FieldInit} {rest : List FieldInit} {m m₁ : Machine} {e : Failure}
      (hv : fieldValue L object scope f m = .failed e m₁) :
      Equips L object scope (f :: rest) m (.failed e m₁)
  | stopped {f : FieldInit} {rest : List FieldInit} {m m₁ : Machine}
      (hv : fieldValue L object scope f m = .stopped m₁) :
      Equips L object scope (f :: rest) m (.stopped m₁)

variable {L : Level} {object : ObjectId} {scope : ScopeId}

theorem equips_forList (fields : List FieldInit) (m : Machine) : Equips L object scope fields m
    ((Eval.forList (initializeField L object scope) fields >>= fun _ => pure object : Eval ObjectId)
      m) := by
  induction fields generalizing m with
  | nil => exact .done m
  | cons f rest ih =>
    have hnext :
        (Eval.forList (initializeField L object scope) (f :: rest) >>= fun _ => pure object :
        Eval ObjectId) = initializeField L object scope f >>= fun _ =>
          (Eval.forList (initializeField L object scope) rest >>= fun _ => pure object) := by
      rw [Eval.forList_cons]
      exact bind_assoc (m := Eval) _ _ _
    rw [hnext, initializeField, bind_assoc, Eval.bind_apply]
    cases hv : fieldValue L object scope f m with
    | done v m₁ => exact .value hv (ih _)
    | failed e m₁ => exact .failed hv
    | stopped m₁ => exact .stopped hv

theorem instantiate_equips (L : Level) (c : ClassId) (m : Machine) :
    Equips L m.heap.objects.size m.heap.scopes.size (m.heap.classAt c).fields
      { m with heap := (m.heap.newInstance c).2 } (instantiate L c m) := by
  have hscope : (m.heap.newInstance c).2.fieldScope? (.object m.heap.objects.size) =
      some m.heap.scopes.size := by
    simp only [Heap.fieldScope?, m.heap.payloadOf_newInstance c]
  have hrun : instantiate L c m =
      (Eval.forList (initializeField L m.heap.objects.size m.heap.scopes.size)
        (m.heap.classAt c).fields >>= fun _ => pure m.heap.objects.size : Eval ObjectId)
        { m with heap := (m.heap.newInstance c).2 } := by
    unfold instantiate
    rw [Eval.bind_apply]
    change (Eval.ask (·.fieldScope? (.object m.heap.objects.size)) >>= _)
      { m with heap := (m.heap.newInstance c).2 } = _
    rw [Eval.ask_bind]
    dsimp only
    rw [hscope]
    rfl
  rw [hrun]
  exact equips_forList _ _

end Calling

/-- The fields that a new instance has so far. -/
structure Machine.Carries (m : Machine) (object : ObjectId) (scope : ScopeId)
    (names : List String) : Prop where
  linked : m.Linked
  owned : m.Owned
  fields : m.heap.payloadOf object = .fields scope
  classes : (m.heap.scopeAt scope).classes = .empty
  functions : (m.heap.scopeAt scope).functions = .empty
  vars : ∀ name, ((m.heap.scopeAt scope).vars.find? name).isSome ↔ name ∈ names

theorem Heap.SameNames.isSome_find? {h' : Heap} {s : ScopeId} (hs : h.SameNames h' s)
    (name : String) :
    ((h'.scopeAt s).vars.find? name).isSome = ((h.scopeAt s).vars.find? name).isSome := by
  have hvars := congrArg (fun sc : Scope => (sc.vars.find? name).isSome) hs
  have hmapped (sc : Scope) : (sc.bindings.vars.find? name).isSome = (sc.vars.find? name).isSome :=
    (congrArg Option.isSome (sc.find?_declarations name)).trans Option.isSome_map
  exact (hmapped _).symm.trans (hvars.trans (hmapped _))

namespace Machine.Carries

variable {m m' : Machine} {object : ObjectId} {scope : ScopeId} {names : List String}

section

variable (hm : m.Carries object scope names)
variable {watch : Machine → Bool} {n : Nat}

include hm

theorem local? (name : String) : ((m.heap.scopeAt scope).local? name).isSome ↔ name ∈ names := by
  unfold Scope.local?
  rw [hm.classes, hm.functions, ← hm.vars]
  exact iff_of_eq (congrArg (· = true) Option.isSome_map)

theorem lt : scope < m.heap.scopes.size :=
  (hm.linked.heap.objects object scope hm.fields).scope

theorem field {v : Value}
    (hv : Calling.fieldValue (watchedLevel watch n) object scope f m = .done v m') :
    Carries
      { m' with
        heap := m'.heap.updateScope scope fun sc =>
          { sc with
            vars := sc.vars.insert f.name ⟨.slot v, false, false, f.access, some f.owner⟩ } }
      object scope (names ++ [f.name]) := by
  have hfits : m.Fits (· = scope) [.scope scope, .fields object scope] := by
    refine ⟨hm.linked, hm.owned, ?_, ?_, fun s hs => hs ▸ hm.lt, ?_⟩
    all_goals simp [Fact.Stands, Fact.Holds, Fact.Apart, hm.lt, hm.fields]
  have hkeeps := (Calling.fieldValue_built object scope f (by simp) (by simp)
    fun _ _ => False.elim).keeps watch n hfits
  rw [hv] at hkeeps
  obtain ⟨⟨hlinked, hgrows⟩, hup, hnames⟩ := hkeeps
  have hfields : m'.heap.payloadOf object = .fields scope := hgrows.fields object scope hm.fields
  have hlt : scope < m'.heap.scopes.size := (hlinked.heap.objects object scope hfields).scope
  have hsame : m.heap.SameNames m'.heap scope := hnames scope rfl
  have hwrite : Write False [.created object, .fields object scope] _ :=
    .variable scope f.name ⟨.slot v, false, false, f.access, some f.owner⟩ _
      (.field object f.owner (by simp) (by simp)) (.field object _ (by simp) rfl)
  have hset : m'.Keeps (fun _ => False) _ := hwrite.keeps (by
    refine ⟨hlinked, hup.owned hm.owned, ?_, ?_, nofun, ?_⟩
    all_goals simp [Fact.Stands, Fact.Holds, Fact.Apart, hfields])
  refine ⟨hset.leads.linked, hset.upholds.owned (hup.owned hm.owned), hfields, ?_, ?_,
    fun name => ?_⟩
  all_goals rw [scopeAt_updateScope, if_pos ⟨rfl, hlt⟩]
  · exact (congrArg Scope.classes hsame).trans hm.classes
  · exact (congrArg Scope.functions hsame).trans hm.functions
  · rw [OrderedMap.find?_insert, mem_append, mem_singleton, ← hm.vars,
      ← hsame.isSome_find? name]
    by_cases hname : f.name = name
    · simp [hname]
    · simp [hname, Ne.symm hname]

theorem equips {fields : List FieldInit} {o : Outcome ObjectId}
    (hrun : Calling.Equips (watchedLevel watch n) object scope fields m o) {object' : ObjectId}
    (hdone : o = .done object' m') : object' = object ∧
      m'.Carries object scope (names ++ fields.map FieldInit.name) := by
  induction hrun generalizing names with
  | done =>
    cases hdone
    exact ⟨rfl, by simpa using hm⟩
  | value hv _ ih => simpa using ih (hm.field hv) hdone
  | failed | stopped => cases hdone

end

end Machine.Carries

theorem Machine.carries_newInstance (hl : m.Linked) (ho : m.Owned) (c : ClassId) :
    Carries { m with heap := (m.heap.newInstance c).2 } m.heap.objects.size
      m.heap.scopes.size [] := by
  have hfits : m.Fits (fun _ => False) [] :=
    ⟨hl, ho, forall_mem_nil _, forall_mem_nil _, nofun, forall_mem_nil _⟩
  have hnew := (hfits.newInstance c).2
  have hscope : (m.heap.newInstance c).2.scopeAt m.heap.scopes.size =
      .fresh (.fields m.heap.objects.size) (some (m.heap.classAt c).scope) := getD_push_size _ _ _
  refine ⟨hnew.linked, hnew.owned, m.heap.payloadOf_newInstance c, ?_, ?_, fun name => ?_⟩
  all_goals rw [hscope]
  · rfl
  · rfl
  · simp [Scope.fresh, OrderedMap.find?, OrderedMap.empty, OrderedMap.findIn]

/-! ## At any time of a session -/

theorem InSession.fielded (hm : InSession m₀) (hrun : m₀.Runs m) : m.heap.Fielded :=
  InSession.keeps World.heap_fielded (fun _ _ _ _ hstep hf => hf.matures hstep) hm hrun

theorem InSession.ownFields_kept {m' : Machine} (hm : InSession m₀) (hbefore : m₀.Runs m)
    (hrun : m.Runs m') (c : ClassId) : m.heap.ownFields c ⊆ m'.heap.ownFields c := by
  induction hrun with
  | refl => exact List.Subset.refl _
  | @tail m₁ m₂ hfirst hmove ih =>
    have hf := hm.fielded (hbefore.trans hfirst)
    refine List.Subset.trans ih ?_
    rcases hf.ownFields_step hmove.before.owned.heap
      (hf.step hmove.matures c) with hsame | ⟨f, -, hmore⟩
    · rw [hsame]
      exact List.Subset.refl _
    · rw [hmore]
      exact subset_append_left _ _

def VarDecl.field (decl : VarDecl) (c : ClassId) : FieldInit :=
  ⟨decl.name, decl.initializer, Declaration.access decl.modifiers, c⟩

def Declaration.Declares (decl : VarDecl) (c : ClassId) (m' : Machine) : Prop :=
  ∃ L m, memberVariable L c decl m = .done () m' ∧ c < m.heap.classes.size ∧
    (decl.modifiers.isStatic || decl.isConst || (m.heap.classAt c).isStatic) = false

theorem Declaration.Declares.mem {decl : VarDecl} {c : ClassId}
    (hd : Declares decl c m) : decl.field c ∈ m.heap.ownFields c := by
  obtain ⟨L, m₀, hrun, hlt, hfield⟩ := hd
  unfold memberVariable at hrun
  rw [Eval.ask_bind, if_neg (by simp [hfield])] at hrun
  split at hrun
  · cases hrun
  · cases hrun
    rw [mem_ownFields, classAt_updateClass, if_pos ⟨rfl, hlt⟩]
    exact ⟨mem_append_right _ (mem_singleton_self _), rfl⟩

/-- A class that has taken over fields in order has each field that it or its ancestors have
    declared, once, and after those of the ancestors of the class that declared it. An instance gets
    its values in this order, and has these names and no others. -/
theorem InSession.fields_inherited_once {m₀ m : Machine} (hm : InSession m₀) (hrun : m₀.Runs m)
    {c : ClassId} (hc : m.heap.InOrder c) (watch : Machine → Bool) (n : Nat) :
    (∀ a decl m₁, m₀.Runs m₁ → m₁.Runs m → Declaration.Declares decl a m₁ →
      decl.field a ∈ m.heap.ownFields a) ∧
    (∀ f, f ∈ (m.heap.classAt c).fields ↔ ∃ a, m.heap.Descends c a ∧ f ∈ m.heap.ownFields a) ∧
    ((m.heap.classAt c).fields.map FieldInit.key).Nodup ∧
    m.heap.AncestorsFirst (m.heap.classAt c).fields ∧
    Calling.Equips (watchedLevel watch n) m.heap.objects.size m.heap.scopes.size
      (m.heap.classAt c).fields { m with heap := (m.heap.newInstance c).2 }
      (Calling.instantiate (watchedLevel watch n) c m) ∧
    ∀ object m', Calling.instantiate (watchedLevel watch n) c m = .done object m' →
      ∃ scope, m'.heap.payloadOf object = .fields scope ∧
        ∀ name, ((m'.heap.scopeAt scope).local? name).isSome ↔
          ∃ a, m.heap.Descends c a ∧ ∃ f ∈ m.heap.ownFields a, f.name = name := by
  have hsteady := hrun.steady hm.steady
  have hinherits := (hm.fielded hrun).inherits hsteady.owned.heap c hc
  have hequips := Calling.instantiate_equips (watchedLevel watch n) c m
  refine ⟨fun a decl m₁ hbefore hafter hd => ?_, hinherits.mem, hinherits.once, hinherits.order,
    hequips, fun object m' hdone => ?_⟩
  · exact hm.ownFields_kept hbefore hafter a hd.mem
  · obtain ⟨rfl, hcarries⟩ :=
      (Machine.carries_newInstance hsteady.linked hsteady.owned c).equips hequips hdone
    refine ⟨_, hcarries.fields, fun name => ?_⟩
    rw [hcarries.local?, nil_append, mem_map]
    simp only [hinherits.mem]
    grind

def Declaration.diamond : List Stmt :=
  let field := fun (name : String) (value : Int64) =>
    Stmt.variable default ⟨name, false, none, some (.literal default (.int value)), .none⟩
  [.class ⟨"A", [], [field "x" 1], .none, default⟩,
   .class ⟨"B", ["A"], [field "y" 2], .none, default⟩,
   .class ⟨"C", ["A"], [field "x" 3], .none, default⟩,
   .class ⟨"D", ["B", "C"], [field "z" 4], .none, default⟩]

theorem InSession.fields_inherited_once_diamond :
    let m := Machine.declaring Declaration.diamond
    InSession m ∧ m.heap.InOrder 56 ∧
      (m.heap.classAt 56).fields.map FieldInit.key = [("x", 50), ("y", 52), ("x", 54), ("z", 56)] ∧
      m.heap.AncestorsFirst (m.heap.classAt 56).fields ∧
      ∃ object m' scope, Calling.instantiate (level 20) 56 m = .done object m' ∧
        m'.heap.payloadOf object = .fields scope ∧
        ∀ name, ((m'.heap.scopeAt scope).local? name).isSome ↔ name ∈ ["x", "y", "x", "z"] := by
  intro m
  have hm : InSession m := .declaring _
  obtain ⟨hall, hkeys, hends⟩ : m.heap.InOrderUpTo 56 ∧
      (m.heap.classAt 56).fields.map FieldInit.key = [("x", 50), ("y", 52), ("x", 54), ("z", 56)] ∧
      (Calling.instantiate (level 20) 56 m).endsIn (fun _ _ => true) = true := by
    decide +kernel
  have horder := hall.inOrder hm.reachable.owned.heap
  obtain ⟨-, hmem, -, hfirst, -, hnames⟩ :=
    InSession.fields_inherited_once hm .refl horder (fun _ => false) 20
  obtain ⟨object, m', hdone, -⟩ := Outcome.done_of_endsIn hends
  obtain ⟨scope, hscope, hlocal⟩ := hnames object m' hdone
  refine ⟨hm, horder, hkeys, hfirst, object, m', scope, hdone, hscope, fun name => ?_⟩
  have hlist : ["x", "y", "x", "z"] = (m.heap.classAt 56).fields.map FieldInit.name := by
    have hfst := congrArg (List.map Prod.fst) hkeys
    rw [map_map] at hfst
    exact hfst.symm
  rw [hlocal, hlist, mem_map]
  simp only [hmem]
  grind

theorem Declaration.field_missed : ∃ m a b f, InSession m ∧ (m.heap.classAt b).ancestors.isSome ∧
    m.heap.Descends b a ∧ f ∈ m.heap.ownFields a ∧ f ∉ (m.heap.classAt b).fields := by
  let program : List Stmt :=
    [.class ⟨"A", [], [.class ⟨"B", ["A"], [], .none, default⟩,
      .variable default ⟨"f", false, none, some (.literal default (.int 1)), .none⟩],
      .none, default⟩]
  let m := Machine.declaring program
  obtain ⟨hsome, hsuper, hnone, hown⟩ : (m.heap.classAt 51).ancestors.isSome ∧
      50 ∈ (m.heap.classAt 51).supers ∧ (m.heap.classAt 51).fields.length = 0 ∧
      (m.heap.ownFields 50).length = 1 := by
    decide +kernel
  obtain ⟨f, hf⟩ := exists_mem_of_length_pos (Nat.lt_of_lt_of_eq Nat.zero_lt_one hown.symm)
  refine ⟨m, 50, 51, f, .declaring program, hsome, .super hsuper (.self 50), hf, ?_⟩
  rw [eq_nil_of_length_eq_zero hnone]
  exact not_mem_nil

end ClassScript
