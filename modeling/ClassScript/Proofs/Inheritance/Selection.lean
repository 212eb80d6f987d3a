import ClassScript.Proofs.Inheritance.Flattening

/-!
# Which Member a Class Has

A member is found by a key: the name of a variable, or the name of a function and the classes that
it accepts. What a class has from its ancestors for a key is a fold of one comparison over the
scopes that its super classes pass on. This is an equation, and everything about which member is
chosen follows from it.
-/

namespace ClassScript

open List Heap OrderedMap Scope

variable {shape : Overload}

/-! ### Keys -/

/-- What a member is found by: the name of a variable, or the name and the shape of a function. -/
inductive MemberKey where
  | function (name : String) (shape : Overload)
  | variable (name : String)

def MemberKey.Clear (h : Heap) : MemberKey → Prop
  | .function name shape =>
    shape.Distinct ∧ ∀ f, (h.overloadAt f).name = name → (h.overloadAt f).Distinct
  | .variable _ => True

def Heap.choice? (h : Heap) (shape : Overload) (family : List OverloadId) :
    Option (Option ClassId) :=
  (family.find? fun f => (h.overloadAt f).sameShape shape).map fun f => (h.overloadAt f).owner

def Scope.selected? (h : Heap) (sc : Scope) : MemberKey → Option (Option ClassId)
  | .function name shape => h.choice? shape ((sc.functions.find? name).getD [])
  | .variable name => (sc.vars.find? name).map (·.owner)

def Heap.offer? (h : Heap) (mode : MergeMode) (shape : Overload) (f : OverloadId) :
    Option (Option ClassId) :=
  if mode = .keep ∧ h.isConstructor (h.overloadAt f) = true then none
  else if (h.overloadAt f).sameShape shape = true then some (h.overloadAt f).owner
  else none

def Scope.offered? (h : Heap) (mode : MergeMode) (sc : Scope) : MemberKey → Option (Option ClassId)
  | .function name shape => ((sc.functions.find? name).getD []).findSome? (h.offer? mode shape)
  | .variable name => (sc.vars.find? name).map (·.owner)

def Heap.settle (h : Heap) (mode : MergeMode) : (old new : Option (Option ClassId)) →
    Option (Option ClassId)
  | old, none => old
  | none, some new => some new
  | some old, some new =>
    if mode = .replace ∧ h.displaces old new = true then some new else some old

def Heap.settleVariable (h : Heap) (mode : MergeMode) : (old new : Option Variable) →
    Option Variable
  | old, none => old
  | none, some new => some new
  | some old, some new =>
    if mode = .replace ∧ h.displaces old.owner new.owner = true then some new else some old

def Scope.Sorted (h : Heap) (sc : Scope) : Prop :=
  ∀ e ∈ sc.functions.entries, h.Family e.1 e.2

theorem Heap.Distinct.clear {h : Heap} (hd : h.Distinct) (hs : shape.Distinct)
    (name : String) : (MemberKey.function name shape).Clear h :=
  ⟨hs, fun f _ => hd f⟩

section Families

variable {h : Heap} {mode : MergeMode} {f g : OverloadId} {shape : Overload}
  {family : List OverloadId}

theorem Heap.sameShape_congr (hs : shape.Distinct) (hf : (h.overloadAt f).Distinct)
    (hg : (h.overloadAt g).Distinct) (hgf : h.sameShape g f = true) :
    (h.overloadAt g).sameShape shape = (h.overloadAt f).sameShape shape := by
  have halike : (h.overloadAt g).Alike (h.overloadAt f) := (Overload.sameShape_iff hg hf).mp hgf
  refine Bool.eq_iff_iff.mpr ?_
  rw [Overload.sameShape_iff hg hs, Overload.sameShape_iff hf hs]
  exact ⟨halike.symm.trans, halike.trans⟩

theorem Heap.sameShape_of_shape (hs : shape.Distinct) (hf : (h.overloadAt f).Distinct)
    (hg : (h.overloadAt g).Distinct) (hfs : (h.overloadAt f).sameShape shape = true)
    (hgs : (h.overloadAt g).sameShape shape = true) : h.sameShape g f = true := by
  rw [Overload.sameShape_iff hf hs] at hfs
  rw [Overload.sameShape_iff hg hs] at hgs
  exact (Overload.sameShape_iff hg hf).mpr (hgs.trans hfs.symm)

theorem Heap.choice?_cons_of_pos (hf : (h.overloadAt f).sameShape shape = true) :
    h.choice? shape (f :: family) = some (h.overloadAt f).owner := by
  unfold choice?
  rw [find?_cons_of_pos (p := fun f => (h.overloadAt f).sameShape shape) hf, Option.map_some]

theorem Heap.choice?_cons_of_neg (hf : ¬ (h.overloadAt f).sameShape shape = true) :
    h.choice? shape (f :: family) = h.choice? shape family := by
  unfold choice?
  rw [find?_cons_of_neg (p := fun f => (h.overloadAt f).sameShape shape) hf]

theorem Heap.offer?_eq_some {o : Option ClassId} (hf : h.offer? mode shape f = some o) :
    (h.overloadAt f).sameShape shape = true ∧ (h.overloadAt f).owner = o := by
  unfold offer? at hf
  split at hf
  · cases hf
  · simp_all

theorem Heap.findSome?_offer? (family : List OverloadId) :
    family.findSome? (h.offer? .replace shape) = h.choice? shape family := by
  induction family with
  | nil => rfl
  | cons f rest ih =>
    have hkept : ¬ (MergeMode.replace = .keep ∧ h.isConstructor (h.overloadAt f) = true) :=
      fun hskip => nomatch hskip.1
    rw [findSome?_cons]
    by_cases hf : (h.overloadAt f).sameShape shape = true
    · rw [choice?_cons_of_pos hf, offer?, if_neg hkept, if_pos hf]
    · rw [choice?_cons_of_neg hf, offer?, if_neg hf]
      exact ih

end Families

/-! ### A merge -/

namespace Heap

variable {h : Heap} {mode : MergeMode}

theorem settle_none (old : Option (Option ClassId)) : h.settle mode old none = old := by
  cases old <;> rfl

theorem settleVariable_none (old : Option Variable) : h.settleVariable mode old none = old := by
  cases old <;> rfl

theorem settleVariable_none_left (new : Option Variable) :
    h.settleVariable mode none new = new := by
  cases new <;> rfl

theorem map_owner_settleVariable (old new : Option Variable) :
    (h.settleVariable mode old new).map Variable.owner =
      h.settle mode (old.map Variable.owner) (new.map Variable.owner) := by
  cases new with
  | none => rw [settleVariable_none, Option.map_none, settle_none]
  | some new =>
    cases old with
    | none => rfl
    | some old =>
      dsimp only [settleVariable, settle, Option.map_some]
      split <;> rfl

theorem settle_eq_some {old new : Option (Option ClassId)} {o : Option ClassId}
    (hs : h.settle mode old new = some o) : old = some o ∨ new = some o := by
  cases new with
  | none => exact .inl hs
  | some new =>
    cases old with
    | none => exact .inr hs
    | some old =>
      rw [settle] at hs
      grind

end Heap

namespace Scope

variable {h : Heap} {mode : MergeMode} {name : String} {shape : Overload}
variable {f : OverloadId} {family : List OverloadId} {sc source target : Scope} {key : MemberKey}

theorem choice?_mergeOverload (hs : shape.Distinct) (hf : (h.overloadAt f).Distinct)
    (hfamily : ∀ g ∈ family, (h.overloadAt g).Distinct) :
    h.choice? shape (mergeOverload h mode f family) =
      h.settle mode (h.choice? shape family)
        (if (h.overloadAt f).sameShape shape = true then some (h.overloadAt f).owner
          else none) := by
  induction family with
  | nil =>
    rw [mergeOverload]
    split
    · next hfs =>
      rw [choice?_cons_of_pos hfs]
      rfl
    · next hfs => rw [choice?_cons_of_neg hfs, settle_none]
  | cons g rest ih =>
    have hg := hfamily g mem_cons_self
    rw [mergeOverload]
    split
    · next hgf =>
      have hsame := sameShape_congr hs hf hg hgf
      by_cases hfs : (h.overloadAt f).sameShape shape = true
      · have hgs := hsame.trans hfs
        rw [if_pos hfs, choice?_cons_of_pos hgs, Heap.settle]
        split
        · exact choice?_cons_of_pos hfs
        · exact choice?_cons_of_pos hgs
      · have hgs : ¬ (h.overloadAt g).sameShape shape = true :=
          fun hgs => hfs (hsame.symm.trans hgs)
        rw [choice?_cons_of_neg hgs]
        split
        · exact choice?_cons_of_neg hfs
        · exact choice?_cons_of_neg hgs
    · next hgf =>
      by_cases hgs : (h.overloadAt g).sameShape shape = true
      · -- The one that comes in would have the shape of the one that is found.
        have hfs : ¬ (h.overloadAt f).sameShape shape = true := fun hfs =>
          hgf (sameShape_of_shape hs hf hg hfs hgs)
        rw [if_neg hfs, settle_none, choice?_cons_of_pos hgs, choice?_cons_of_pos hgs]
      · rw [choice?_cons_of_neg hgs, choice?_cons_of_neg hgs]
        exact ih fun k hk => hfamily k (mem_cons_of_mem g hk)

def DistinctIn (h : Heap) (name : String) (sc : Scope) : Prop :=
  ∀ f ∈ (sc.functions.find? name).getD [], (h.overloadAt f).Distinct

theorem Sorted.distinctIn (hsc : sc.Sorted h)
    (hclear : ∀ f, (h.overloadAt f).name = name → (h.overloadAt f).Distinct) :
    sc.DistinctIn h name := by
  intro f hf
  obtain ⟨e, he, rfl, hfe⟩ := mem_family hf
  exact hclear f ((hsc e he).name f hfe)

theorem mergeFamily_distinctIn (mode : MergeMode) (hsc : sc.DistinctIn h name)
    (hfamily : ∀ f ∈ family, (h.overloadAt f).Distinct) (name' : String) :
    (mergeFamily h mode sc name' family).DistinctIn h name := by
  refine mergeFamily_keeps name' family (fun s f hf _ hs g hg => ?_) sc hsc
  rw [withFunction, find?_insert] at hg
  split at hg
  · next hname =>
    rw [hname] at hg
    rcases mem_mergeOverload hg with rfl | hg
    · exact hfamily g hf
    · exact hs g hg
  · exact hs g hg

theorem mergeFamily_find? (h : Heap) (mode : MergeMode) (sc : Scope) {name' : String}
    (hname : name' ≠ name) (family : List OverloadId) :
    (mergeFamily h mode sc name' family).functions.find? name = sc.functions.find? name := by
  refine mergeFamily_keeps (I := fun s => s.functions.find? name = sc.functions.find? name)
    name' family
    (fun s f _ _ hs => ?_) sc rfl
  rw [withFunction, find?_insert, if_neg hname]
  exact hs

theorem selected?_mergeFamily_single (hs : shape.Distinct) (hsc : sc.DistinctIn h name)
    (hf : (h.overloadAt f).Distinct) :
    (mergeFamily h mode sc name [f]).selected? h (.function name shape) =
      h.settle mode (sc.selected? h (.function name shape)) (h.offer? mode shape f) := by
  unfold mergeFamily Heap.offer?
  rw [foldl_cons, foldl_nil]
  split
  · exact (settle_none _).symm
  · unfold selected?
    dsimp only
    rw [find?_insert, if_pos rfl]
    exact choice?_mergeOverload hs hf hsc

theorem selected?_mergeFamily (hs : shape.Distinct)
    (hfamily : ∀ f ∈ family, (h.overloadAt f).Distinct) (hapart : h.Apart family) :
    ∀ sc : Scope, sc.DistinctIn h name →
      (mergeFamily h mode sc name family).selected? h (.function name shape) =
        h.settle mode (sc.selected? h (.function name shape))
          (family.findSome? (h.offer? mode shape)) := by
  induction family with
  | nil => intro sc _; exact (settle_none _).symm
  | cons f rest ih =>
    intro sc hsc
    obtain ⟨hfirst, hrest⟩ := pairwise_cons.mp hapart
    have hf := hfamily f mem_cons_self
    have hothers (g : OverloadId) (hg : g ∈ rest) := hfamily g (mem_cons_of_mem f hg)
    have hsingle (g : OverloadId) (hg : g ∈ [f]) : (h.overloadAt g).Distinct := by grind
    change (mergeFamily h mode (mergeFamily h mode sc name [f]) name rest).selected? h _ = _
    rw [ih hothers hrest _ (mergeFamily_distinctIn mode hsc hsingle name),
      selected?_mergeFamily_single hs hsc hf, findSome?_cons]
    cases hoffer : h.offer? mode shape f with
    | none => rw [settle_none]
    | some o =>
      have hnone : rest.findSome? (h.offer? mode shape) = none := by
        refine findSome?_eq_none_iff.mpr fun g hg => ?_
        cases hg' : h.offer? mode shape g with
        | none => rfl
        | some _ =>
          have hshape := sameShape_of_shape hs (hothers g hg) hf
            (offer?_eq_some hg').1 (offer?_eq_some hoffer).1
          simp_all
      rw [hnone, settle_none]

theorem selected?_mergeFamilies (mode : MergeMode) (hs : shape.Distinct)
    {entries : List (String × List OverloadId)}
    (hnodup : (entries.map Prod.fst).Nodup) (hapart : ∀ e ∈ entries, h.Apart e.2)
    (hentries : ∀ e ∈ entries, e.1 = name → ∀ f ∈ e.2, (h.overloadAt f).Distinct) :
    ∀ sc : Scope, sc.DistinctIn h name →
      (entries.foldl (fun s e => mergeFamily h mode s e.1 e.2) sc).selected? h
        (.function name shape) =
        h.settle mode (sc.selected? h (.function name shape))
          (((OrderedMap.findIn name entries).getD []).findSome? (h.offer? mode shape)) := by
  induction entries with
  | nil => intro sc _; exact (settle_none _).symm
  | cons e rest ih =>
    intro sc hsc
    obtain ⟨hfirst, hrest⟩ := nodup_cons.mp hnodup
    have hthere := hentries e mem_cons_self
    have hrestApart (e' : String × List OverloadId) (he' : e' ∈ rest) :=
      hapart e' (mem_cons_of_mem e he')
    have hrestEntries (e' : String × List OverloadId) (he' : e' ∈ rest) :=
      hentries e' (mem_cons_of_mem e he')
    rw [foldl_cons, OrderedMap.findIn]
    by_cases hname : e.1 = name
    · have hdistinct := mergeFamily_distinctIn mode hsc (hthere hname) e.1
      have hnone : OrderedMap.findIn name rest = none := findIn_eq_none (hname ▸ hfirst)
      rw [if_pos hname, ih hrest hrestApart hrestEntries _ hdistinct, hnone, hname]
      rw [selected?_mergeFamily hs (hthere hname) (hapart e mem_cons_self) sc hsc]
      exact settle_none _
    · have hsame := mergeFamily_find? h mode sc hname e.2
      have hdistinct : (mergeFamily h mode sc e.1 e.2).DistinctIn h name := by
        unfold DistinctIn
        rw [hsame]
        exact hsc
      have hselected : (mergeFamily h mode sc e.1 e.2).selected? h (.function name shape) =
          sc.selected? h (.function name shape) := by
        unfold selected?
        dsimp only
        rw [hsame]
      rw [if_neg hname, ih hrest hrestApart hrestEntries _ hdistinct, hselected]

theorem mergeClass_vars (s : Scope) (name : String) (c : ClassId) :
    (mergeClass mode s name c).vars = s.vars := by
  unfold mergeClass
  split <;> rfl

theorem mergeFamily_vars (s : Scope) (name : String) (family : List OverloadId) :
    (mergeFamily h mode s name family).vars = s.vars :=
  mergeFamily_keeps (I := fun sc => sc.vars = s.vars) name family (fun _ _ _ _ hs => hs) s rfl

theorem find?_mergeVariable (sc : Scope) (name' : String) (v : Variable) :
    (mergeVariable h mode sc name' v).vars.find? name =
      h.settleVariable mode (sc.vars.find? name) (if name' = name then some v else none) := by
  by_cases hname : name' = name
  · unfold mergeVariable
    rw [if_pos hname, hname]
    cases hthere : sc.vars.find? name with
    | none =>
      rw [if_pos rfl, find?_insert, if_pos rfl]
      rfl
    | some existing =>
      rw [Heap.settleVariable]
      by_cases hwins : mode = .replace ∧ h.displaces existing.owner v.owner = true
      · rw [if_pos hwins, if_pos (by rw [Bool.and_eq_true, beq_iff_eq]; exact hwins),
          find?_insert, if_pos rfl]
      · grind
  · rw [if_neg hname, settleVariable_none]
    rcases mergeVariable_cases h mode sc name' v with hsame | ⟨hnew, _⟩
    · rw [hsame]
    · rw [hnew, find?_insert, if_neg hname]

theorem find?_mergeVariables (h : Heap) (mode : MergeMode) (name : String)
    {entries : List (String × Variable)} (hnodup : (entries.map Prod.fst).Nodup) : ∀ sc : Scope,
      (entries.foldl (fun s e => mergeVariable h mode s e.1 e.2) sc).vars.find? name =
        h.settleVariable mode (sc.vars.find? name) (OrderedMap.findIn name entries) := by
  induction entries with
  | nil => intro sc; exact (settleVariable_none _).symm
  | cons e rest ih =>
    intro sc
    obtain ⟨hfirst, hrest⟩ := nodup_cons.mp hnodup
    rw [foldl_cons, ih hrest, find?_mergeVariable, OrderedMap.findIn]
    by_cases hname : e.1 = name
    · have hnone : OrderedMap.findIn name rest = none :=
        findIn_eq_none (hname ▸ hfirst)
      rw [if_pos hname, if_pos hname, hnone, settleVariable_none]
    · rw [if_neg hname, if_neg hname, settleVariable_none]

theorem find?_merge (h : Heap) (mode : MergeMode) (source target : Scope) (name : String) :
    (merge h mode source target).vars.find? name =
      h.settleVariable mode (target.vars.find? name) (source.vars.find? name) := by
  let withClasses := source.classes.entries.foldl (fun s e => mergeClass mode s e.1 e.2) target
  let withFunctions :=
    source.functions.entries.foldl (fun s e => mergeFamily h mode s e.1 e.2) withClasses
  have hvars : withFunctions.vars = target.vars := by
    refine foldlRecOn (motive := fun s => s.vars = target.vars) source.functions.entries _ ?_
      fun s hs e _ => (mergeFamily_vars s e.1 e.2).trans hs
    exact foldlRecOn (motive := fun s => s.vars = target.vars) source.classes.entries _ rfl
      fun s hs e _ => (mergeClass_vars s e.1 e.2).trans hs
  rw [← hvars]
  exact find?_mergeVariables h mode name source.vars.nodup withFunctions

theorem selected?_merge (hkey : key.Clear h) (hsource : source.Sorted h)
    (htarget : target.Sorted h) :
    (merge h mode source target).selected? h key =
      h.settle mode (target.selected? h key) (source.offered? h mode key) := by
  let withClasses := source.classes.entries.foldl (fun s e => mergeClass mode s e.1 e.2) target
  let withFunctions :=
    source.functions.entries.foldl (fun s e => mergeFamily h mode s e.1 e.2) withClasses
  change (source.vars.entries.foldl (fun s e => mergeVariable h mode s e.1 e.2)
    withFunctions).selected? h key = _
  have hfunctions : withClasses.functions = target.functions :=
    foldlRecOn (motive := fun s => s.functions = target.functions) source.classes.entries _ rfl
      fun s hs e _ => (mergeClass_functions s e.1 e.2).trans hs
  cases key with
  | function name shape =>
    obtain ⟨hs, hclear⟩ := hkey
    have hlast : (source.vars.entries.foldl (fun s e => mergeVariable h mode s e.1 e.2)
        withFunctions).functions = withFunctions.functions :=
      foldlRecOn (motive := fun s => s.functions = withFunctions.functions) source.vars.entries _
        rfl fun s hs e _ => (mergeVariable_functions s e.1 e.2).trans hs
    have hdistinct : withClasses.DistinctIn h name := by
      unfold DistinctIn
      rw [hfunctions]
      exact htarget.distinctIn hclear
    have htaken := selected?_mergeFamilies mode hs source.functions.nodup
      (fun e he => (hsource e he).apart)
      (fun e he hname f hf => hclear f (((hsource e he).name f hf).trans hname))
      withClasses hdistinct
    unfold selected? at htaken ⊢
    rw [hlast]
    rw [hfunctions] at htaken
    exact htaken
  | «variable» name =>
    have htaken := congrArg (Option.map Variable.owner) (find?_merge h mode source target name)
    rw [map_owner_settleVariable] at htaken
    exact htaken

theorem choice?_of_mem (hs : shape.Distinct)
    (hfamily : ∀ f ∈ family, (h.overloadAt f).Distinct) (hapart : h.Apart family)
    (hf : f ∈ family) (hfs : (h.overloadAt f).sameShape shape = true) :
    h.choice? shape family = some (h.overloadAt f).owner := by
  induction family with
  | nil => cases hf
  | cons g rest ih =>
    obtain ⟨hfirst, hrest⟩ := pairwise_cons.mp hapart
    rcases mem_cons.mp hf with rfl | hf
    · exact choice?_cons_of_pos hfs
    · have hg := hfamily g mem_cons_self
      have hothers (k : OverloadId) (hk : k ∈ rest) := hfamily k (mem_cons_of_mem g hk)
      have hgs : ¬ (h.overloadAt g).sameShape shape = true := fun hgs => by
        have hshape := sameShape_of_shape hs (hothers f hf) hg hfs hgs
        simp_all
      rw [choice?_cons_of_neg hgs]
      exact ih hothers hrest hf

theorem offered?_replace (sc : Scope) (key : MemberKey) :
    sc.offered? h .replace key = sc.selected? h key := by
  cases key with
  | function => exact findSome?_offer? _
  | «variable» => rfl

theorem selected?_of_offered? (hkey : key.Clear h)
    (hsc : sc.Sorted h) {o : Option ClassId} (ho : sc.offered? h mode key = some o) :
    sc.selected? h key = some o := by
  cases key with
  | function name shape =>
    obtain ⟨hs, hclear⟩ := hkey
    obtain ⟨f, hf, hoffer⟩ := exists_of_findSome?_eq_some ho
    obtain ⟨hfs, howner⟩ := offer?_eq_some hoffer
    have hapart : h.Apart ((sc.functions.find? name).getD []) :=
      apart_find (fun e he => (hsc e he).apart) name
    exact (choice?_of_mem hs (hsc.distinctIn hclear) hapart hf hfs).trans (congrArg some howner)
  | «variable» name => exact ho

theorem merge_sorted (mode : MergeMode) (hsource : source.Sorted h) (htarget : target.Sorted h) :
    (merge h mode source target).Sorted h := by
  have hevery {sc : Scope} (hsc : sc.Sorted h) : sc.Every
      (fun name f => f < h.overloads.size ∧ (h.overloadAt f).name = name) (fun _ _ => True)
      fun _ _ => True :=
    ⟨fun e he f hf => ⟨(hsc e he).lt f hf, (hsc e he).name f hf⟩, fun _ _ => trivial,
      fun _ _ => trivial⟩
  have hmembers : (merge h mode source target).Every _ _ _ := merge_every (hevery htarget)
    ⟨fun e he f hf _ => (hevery hsource).functions e he f hf, (hevery hsource).vars,
      (hevery hsource).classes⟩
  have hapart := merge_apart mode source (fun e he => (htarget e he).apart : target.Apart h)
  exact fun e he => ⟨fun f hf => (hmembers.functions e he f hf).1,
    fun f hf => (hmembers.functions e he f hf).2, hapart e he⟩

end Scope

/-! ### Gathering -/

namespace Heap

variable {h h' : Heap} {mode : MergeMode} {t : ScopeId} {key : MemberKey}
variable {P : ClassId → Prop} {sc : Scope}

section

variable
  (hP : ∀ d, P d → (h'.classAt d).supers = (h.classAt d).supers ∧ ∀ p ∈ (h.classAt d).supers, P p)
include hP

theorem inheritsWithin_congr (ancestor : ClassId) (n : Nat) :
    ∀ c, P c → h'.inheritsWithin ancestor n c = h.inheritsWithin ancestor n c := by
  induction n with
  | zero => intro c _; rfl
  | succ n ih =>
    intro c hc
    obtain ⟨hsupers, hclosed⟩ := hP c hc
    have hany : (h.classAt c).supers.any (h'.inheritsWithin ancestor n) =
        (h.classAt c).supers.any (h.inheritsWithin ancestor n) := by
      refine Bool.eq_iff_iff.mpr ?_
      rw [any_eq_true, any_eq_true]
      refine exists_congr fun p => and_congr_right fun hp => ?_
      rw [ih p (hclosed p hp)]
    rw [inheritsWithin, inheritsWithin, hsupers, hany]

theorem displaces_congr {old : Option ClassId} (hold : ∀ o, old = some o → P o)
    (new : Option ClassId) :
    h'.displaces old new = h.displaces old new := by
  cases old with
  | none => rfl
  | some old =>
    cases new with
    | none => rfl
    | some new => exact congrArg not (inheritsWithin_congr hP new (old + 1) old (hold old rfl))

theorem settle_congr {old : Option (Option ClassId)} (hold : ∀ o, old = some (some o) → P o)
    (new : Option (Option ClassId)) : h'.settle mode old new = h.settle mode old new := by
  cases new with
  | none => rw [settle_none, settle_none]
  | some new =>
    cases old with
    | none => rfl
    | some old =>
      have hdisplaces : h'.displaces old new = h.displaces old new :=
        displaces_congr hP (fun o ho => hold o (congrArg some ho)) new
      rw [settle, settle, hdisplaces]

end

theorem settle_of_supers (hsupers : ∀ d, (h'.classAt d).supers = (h.classAt d).supers)
    (old new : Option (Option ClassId)) : h'.settle mode old new = h.settle mode old new :=
  settle_congr (P := fun _ => True) (fun d _ => ⟨hsupers d, fun _ _ => trivial⟩)
    (fun _ _ => trivial) new

theorem settleVariable_of_supers (hsupers : ∀ d, (h'.classAt d).supers = (h.classAt d).supers)
    (old new : Option Variable) :
    h'.settleVariable mode old new = h.settleVariable mode old new := by
  have hdisplaces (old new : Option ClassId) : h'.displaces old new = h.displaces old new :=
    displaces_congr (P := fun _ => True) (fun d _ => ⟨hsupers d, fun _ _ => trivial⟩)
      (fun _ _ => trivial) new
  cases new with
  | none => rw [settleVariable_none, settleVariable_none]
  | some new =>
    cases old with
    | none => rfl
    | some old => rw [settleVariable, settleVariable, hdisplaces]

theorem choice?_congr {family : List OverloadId}
    (hover : ∀ f ∈ family, h'.overloadAt f = h.overloadAt f) :
    h'.choice? shape family = h.choice? shape family := by
  induction family with
  | nil => rfl
  | cons f rest ih =>
    have hf := hover f mem_cons_self
    have hrest := ih fun g hg => hover g (mem_cons_of_mem f hg)
    by_cases hfs : (h.overloadAt f).sameShape shape = true
    · rw [choice?_cons_of_pos (hf ▸ hfs), choice?_cons_of_pos hfs, hf]
    · rw [choice?_cons_of_neg (hf ▸ hfs), choice?_cons_of_neg hfs, hrest]

theorem selected?_congr
    (hover : ∀ e ∈ sc.functions.entries, ∀ f ∈ e.2, h'.overloadAt f = h.overloadAt f)
    (key : MemberKey) : sc.selected? h' key = sc.selected? h key := by
  cases key with
  | function =>
    refine choice?_congr fun f hf => ?_
    obtain ⟨e, he, _, hfe⟩ := mem_family hf
    exact hover e he f hfe
  | «variable» => rfl

theorem clear_congr (hover : ∀ f, h'.overloadAt f = h.overloadAt f) (hkey : key.Clear h) :
    key.Clear h' := by
  cases key with
  | function =>
    refine ⟨hkey.1, fun f hf => ?_⟩
    rw [hover] at hf ⊢
    exact hkey.2 f hf
  | «variable» => trivial

theorem sorted_congr (hover : h'.overloads = h.overloads) (hsc : sc.Sorted h) : sc.Sorted h' := by
  have hfamily (name : String) (family : List OverloadId) (hf : h.Family name family) :
      h'.Family name family := by
    obtain ⟨hlt, hname, hapart⟩ := hf
    unfold Apart sameShape overloadAt at *
    rw [← hover] at hlt hname hapart
    exact ⟨hlt, hname, hapart⟩
  exact fun e he => hfamily e.1 e.2 (hsc e he)

def gather (h : Heap) (c : ClassId) (has : ScopeId → Option (Option ClassId)) :
    Option (Option ClassId) :=
  ((h.classAt c).supers.flatMap h.sourcesOf).foldl (fun old s => h.settle .replace old (has s)) none

section Gathered

variable {modules : List (String × ClassId)} {c : ClassId}

theorem Owned.sorted (ho : h.Owned modules) (s : ScopeId) : (h.scopeAt s).Sorted h :=
  (ho.scopes s).families

theorem withShadow_supers (d : ClassId) :
    ((h.withShadow c).classAt d).supers = (h.classAt d).supers :=
  newClass_field Class.supers h _ _ rfl d

theorem gathered_selected (ho : h.Owned modules) (hl : h.Linked) (hkey : key.Clear h) :
    ((h.gathered c).scopeAt h.scopes.size).selected? h key =
      h.gather c fun s => (h.scopeAt s).selected? h key := by
  refine (gathered_follows (I := fun old sc => sc.Sorted h ∧ sc.selected? h key = old) ho hl
    (fun _ => ⟨fun _ => nofun, by cases key <;> rfl⟩) fun k hk p _ d _ _ old sc hsc => ?_).2
  have hoverloads : k.overloads = h.overloads := hk.overloads
  have hover (f : OverloadId) : k.overloadAt f = h.overloadAt f := hk.overloadAt f
  have hsame (sc : Scope) : sc.selected? k key = sc.selected? h key :=
    selected?_congr (fun _ _ f _ => hover f) key
  have hsupers (d : ClassId) : (k.classAt d).supers = (h.classAt d).supers :=
    (congrArg Class.supers (hk.classAt d)).trans (withShadow_supers d)
  have hsource := sorted_congr hoverloads (ho.sorted (h.classAt d).scope)
  have hthere := sorted_congr hoverloads hsc.1
  refine ⟨sorted_congr hoverloads.symm (merge_sorted _ hsource hthere), ?_⟩
  rw [← hsame, selected?_merge (clear_congr hover hkey) hsource hthere,
    offered?_replace, hsame, hsame, hsc.2, settle_of_supers hsupers]

end Gathered

end Heap

end ClassScript
