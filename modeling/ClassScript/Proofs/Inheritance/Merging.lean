import ClassScript.Proofs.Maps
import ClassScript.Store.Inherit
import Mathlib.Data.List.Perm.Subperm

/-!
# Merging Members

None of the facts here asks which of two functions of the same shape is kept: every member comes
from one of the two scopes, and for every function that was to be merged there is one that accepts
the same classes afterwards.
-/

namespace ClassScript

open List OrderedMap

variable {a b : List ClassId}

def Parameter.Accepts (p : Parameter) (c : ClassId) : Prop :=
  ∃ classes, p.accepted = some classes ∧ c ∈ classes

structure Parameter.Alike (p q : Parameter) : Prop where
  variadic : p.variadic = q.variadic
  untyped : p.accepted = none ↔ q.accepted = none
  classes : ∀ c, p.Accepts c ↔ q.Accepts c

structure Overload.Alike (f g : Overload) : Prop where
  length : f.params.length = g.params.length
  params : ∀ (i : Nat) (p q : Parameter), f.params[i]? = some p → g.params[i]? = some q → p.Alike q

def Overload.Distinct (f : Overload) : Prop :=
  ∀ p ∈ f.params, ∀ classes, p.accepted = some classes → classes.Nodup

def Heap.Distinct (h : Heap) : Prop :=
  ∀ f, (h.overloadAt f).Distinct

theorem Overload.distinct_iff (f : Overload) :
    f.Distinct ↔ ∀ p ∈ f.params, (p.accepted.getD []).Nodup := by
  refine forall₂_congr fun p _ => ?_
  cases p.accepted with
  | none | some => simp

instance (f : Overload) : Decidable f.Distinct :=
  decidable_of_iff _ f.distinct_iff.symm

theorem Heap.distinct_iff (h : Heap) : h.Distinct ↔ ∀ f ∈ h.overloads.toList, f.Distinct := by
  constructor
  · intro hd f hf
    obtain ⟨i, hi, hget⟩ := getElem_of_mem hf
    have hlt : i < h.overloads.size := hi
    have hat : h.overloadAt i = f := by
      rw [← hget]
      exact (Array.getD_eq_getD_getElem? ..).trans (by rw [Array.getElem?_eq_getElem hlt]; rfl)
    exact hat ▸ hd i
  · intro hall i
    unfold overloadAt
    rw [Array.getD_eq_getD_getElem?]
    cases hi : h.overloads[i]? with
    | none => exact fun p hp => absurd hp not_mem_nil
    | some f => grind

instance (h : Heap) : Decidable h.Distinct :=
  decidable_of_iff _ h.distinct_iff.symm

theorem sameClasses_refl (a : List ClassId) : sameClasses a a = true := by simp [sameClasses]

theorem sameClasses_trans {c : List ClassId} (hab : sameClasses a b = true)
    (hbc : sameClasses b c = true) : sameClasses a c = true := by
  simp only [sameClasses] at hab hbc ⊢
  simp_all

theorem sameClasses_iff (ha : a.Nodup) (hb : b.Nodup) :
    sameClasses a b = true ↔ ∀ c, c ∈ a ↔ c ∈ b := by
  simp only [sameClasses, Bool.and_eq_true, beq_iff_eq, all_eq_true, contains_iff_mem]
  constructor
  · rintro ⟨hlength, hsub⟩ c
    have hperm : a.Perm b :=
      (subperm_of_subset ha hsub).perm_of_length_le (Nat.le_of_eq hlength.symm)
    exact hperm.mem_iff
  · intro h
    have hperm : a.Perm b := (perm_ext_iff_of_nodup ha hb).mpr h
    exact ⟨hperm.length_eq, fun c hc => (h c).mp hc⟩

namespace Parameter

variable {p q : Parameter} {r : Parameter}

theorem sameShape_refl (p : Parameter) : p.sameShape p = true := by
  unfold sameShape
  cases p.accepted with
  | none => simp
  | some classes => simp [sameClasses_refl]

theorem sameShape_trans (hpq : p.sameShape q = true)
    (hqr : q.sameShape r = true) : p.sameShape r = true := by
  unfold sameShape at hpq hqr ⊢
  rw [Bool.and_eq_true, beq_iff_eq] at hpq hqr ⊢
  refine ⟨hpq.1.trans hqr.1, ?_⟩
  have hpq := hpq.2
  have hqr := hqr.2
  cases hp : p.accepted <;> cases hq : q.accepted <;> cases hr : r.accepted <;>
    simp only [hp, hq, hr, Bool.false_eq_true] at hpq hqr ⊢
  exact sameClasses_trans hpq hqr

theorem sameShape_iff (hp : ∀ classes, p.accepted = some classes → classes.Nodup)
    (hq : ∀ classes, q.accepted = some classes → classes.Nodup) :
    p.sameShape q = true ↔ p.Alike q := by
  have hshape : p.sameShape q = true ↔ p.variadic = q.variadic ∧
      ((p.accepted = none ∧ q.accepted = none) ∨
        ∃ a b, p.accepted = some a ∧ q.accepted = some b ∧ ∀ c, c ∈ a ↔ c ∈ b) := by
    unfold sameShape
    cases ha : p.accepted <;> cases hb : q.accepted <;> simp
    rename_i a b
    intro _
    exact sameClasses_iff (hp a ha) (hq b hb)
  rw [hshape]
  constructor
  · rintro ⟨hv, ⟨ha, hb⟩ | ⟨a, b, ha, hb, hab⟩⟩
    · exact ⟨hv, by simp [ha, hb], by simp [Accepts, ha, hb]⟩
    · exact ⟨hv, by simp [ha, hb], by simpa [Accepts, ha, hb] using hab⟩
  · rintro ⟨hv, hn, hc⟩
    refine ⟨hv, ?_⟩
    cases ha : p.accepted with
    | none => exact .inl ⟨rfl, hn.mp ha⟩
    | some a =>
      cases hb : q.accepted with
      | none => simp_all
      | some b => exact .inr ⟨a, b, rfl, rfl, by simpa [Accepts, ha, hb] using hc⟩

theorem Alike.symm (h : p.Alike q) : q.Alike p :=
  ⟨h.variadic.symm, h.untyped.symm, fun c => (h.classes c).symm⟩

theorem Alike.trans (hpq : p.Alike q) (hqr : q.Alike r) : p.Alike r :=
  ⟨hpq.variadic.trans hqr.variadic, hpq.untyped.trans hqr.untyped,
    fun c => (hpq.classes c).trans (hqr.classes c)⟩

end Parameter

namespace Overload

variable {f g : Overload} {k : Overload}

theorem sameShape_iff_positions : f.sameShape g = true ↔ f.params.length = g.params.length ∧
      ∀ (i : Nat) (p q : Parameter), f.params[i]? = some p → g.params[i]? = some q →
        p.sameShape q = true := by
  unfold sameShape
  rw [Bool.and_eq_true, beq_iff_eq, all_eq_true]
  refine and_congr_right fun _ => ⟨fun h i p q hp hq => ?_, fun h e he => ?_⟩
  · exact h (p, q) (mem_of_getElem? (getElem?_zip_eq_some.mpr ⟨hp, hq⟩))
  · obtain ⟨i, hi⟩ := mem_iff_getElem?.mp he
    obtain ⟨hp, hq⟩ := getElem?_zip_eq_some.mp hi
    exact h i e.1 e.2 hp hq

theorem sameShape_refl (f : Overload) : f.sameShape f = true := by
  refine sameShape_iff_positions.mpr ⟨rfl, fun i p q hp hq => ?_⟩
  rw [hp] at hq
  cases hq
  exact p.sameShape_refl

theorem exists_param (h : f.params.length = g.params.length) {i : Nat}
    {p : Parameter} (hp : f.params[i]? = some p) : ∃ q, g.params[i]? = some q := by
  have hi : i < f.params.length := (List.getElem?_eq_some_iff.mp hp).1
  exact ⟨_, getElem?_eq_getElem (h ▸ hi)⟩

theorem sameShape_trans (hfg : f.sameShape g = true)
    (hgk : g.sameShape k = true) : f.sameShape k = true := by
  rw [sameShape_iff_positions] at hfg hgk ⊢
  refine ⟨hfg.1.trans hgk.1, fun i p r hp hr => ?_⟩
  obtain ⟨q, hq⟩ := exists_param hfg.1 hp
  exact Parameter.sameShape_trans (hfg.2 i p q hp hq) (hgk.2 i q r hq hr)

theorem sameShape_iff (hf : f.Distinct) (hg : g.Distinct) : f.sameShape g = true ↔ f.Alike g := by
  rw [sameShape_iff_positions]
  constructor
  · rintro ⟨hlength, hparams⟩
    refine ⟨hlength, fun i p q hp hq => ?_⟩
    exact (Parameter.sameShape_iff (hf p (mem_of_getElem? hp))
      (hg q (mem_of_getElem? hq))).mp (hparams i p q hp hq)
  · rintro ⟨hlength, hparams⟩
    refine ⟨hlength, fun i p q hp hq => ?_⟩
    exact (Parameter.sameShape_iff (hf p (mem_of_getElem? hp))
      (hg q (mem_of_getElem? hq))).mpr (hparams i p q hp hq)

theorem Alike.refl (f : Overload) : f.Alike f := by
  refine ⟨rfl, fun i p q hp hq => ?_⟩
  rw [hp] at hq
  cases hq
  exact ⟨rfl, Iff.rfl, fun _ => Iff.rfl⟩

theorem Alike.symm (h : f.Alike g) : g.Alike f :=
  ⟨h.length.symm, fun i p q hp hq => (h.params i q p hq hp).symm⟩

theorem Alike.trans (hfg : f.Alike g) (hgk : g.Alike k) : f.Alike k := by
  refine ⟨hfg.length.trans hgk.length, fun i p r hp hr => ?_⟩
  obtain ⟨q, hq⟩ := exists_param hfg.length hp
  exact (hfg.params i p q hp hq).trans (hgk.params i q r hq hr)

end Overload

def Heap.Apart (h : Heap) (family : List OverloadId) : Prop :=
  family.Pairwise fun g f => h.sameShape g f = false

namespace Heap

variable {h : Heap} {f g : OverloadId} {family : List OverloadId}

theorem sameShape_trans {k : OverloadId} (hfg : h.sameShape f g = true)
    (hgk : h.sameShape g k = true) : h.sameShape f k = true :=
  Overload.sameShape_trans hfg hgk

theorem Apart.replace {rest : List OverloadId} (hgf : h.sameShape g f = true)
    (hrest : h.Apart (g :: rest)) : h.Apart (f :: rest) := by
  obtain ⟨hg, hrest⟩ := pairwise_cons.mp hrest
  refine pairwise_cons.mpr ⟨fun k hk => ?_, hrest⟩
  -- Otherwise the function that was there would have the shape of a later one.
  by_contra hfk
  rw [Bool.not_eq_false] at hfk
  have hgk := sameShape_trans hgf hfk
  rw [hg k hk] at hgk
  cases hgk

theorem mem_insertOverload {x : OverloadId}
    (hx : x ∈ h.insertOverload f family) : x = f ∨ x ∈ family := by
  induction family with
  | nil => exact .inl (mem_singleton.mp hx)
  | cons =>
    rw [insertOverload] at hx
    all_goals grind

theorem Apart.insertOverload (hfamily : h.Apart family)
    (f : OverloadId) : h.Apart (h.insertOverload f family) := by
  induction family with
  | nil => exact pairwise_singleton ..
  | cons g rest ih =>
    rw [Heap.insertOverload]
    split
    · next hg => exact hfamily.replace hg
    · next hg =>
      obtain ⟨hfirst, hrest⟩ := pairwise_cons.mp hfamily
      refine pairwise_cons.mpr ⟨fun k hk => ?_, ih hrest⟩
      rcases mem_insertOverload hk with rfl | hk
      · exact Bool.eq_false_iff.mpr hg
      · exact hfirst k hk

end Heap

namespace Scope

variable {h : Heap} {mode : MergeMode}
variable {family : List OverloadId} {f x : OverloadId}

theorem mem_mergeOverload (hx : x ∈ mergeOverload h mode f family) : x = f ∨ x ∈ family := by
  induction family with
  | nil => exact .inl (mem_singleton.mp hx)
  | cons =>
    rw [mergeOverload] at hx
    all_goals grind

theorem mergeOverload_apart (hfamily : h.Apart family)
    (f : OverloadId) : h.Apart (mergeOverload h mode f family) := by
  induction family with
  | nil => exact pairwise_singleton ..
  | cons g rest ih =>
    rw [mergeOverload]
    split
    · next hg =>
      split
      · exact hfamily.replace hg
      · exact hfamily
    · next hg =>
      obtain ⟨hfirst, hrest⟩ := pairwise_cons.mp hfamily
      refine pairwise_cons.mpr ⟨fun k hk => ?_, ih hrest⟩
      rcases mem_mergeOverload hk with rfl | hk
      · exact Bool.eq_false_iff.mpr hg
      · exact hfirst k hk

theorem mergeOverload_alike (mode : MergeMode) (hd : h.Distinct) (hx : x = f ∨ x ∈ family) :
    ∃ y ∈ mergeOverload h mode f family, (h.overloadAt y).Alike (h.overloadAt x) := by
  induction family with
  | nil =>
    rcases hx with rfl | hx
    · exact ⟨x, mem_singleton_self x, .refl _⟩
    · cases hx
  | cons g rest ih =>
    rw [mergeOverload]
    split
    · next hg =>
      have hgf : (h.overloadAt g).Alike (h.overloadAt f) :=
        (Overload.sameShape_iff (hd g) (hd f)).mp hg
      split
      · -- The incoming one takes the place of the other.
        rcases hx with rfl | hx
        · exact ⟨x, mem_cons_self, .refl _⟩
        rcases mem_cons.mp hx with rfl | hx
        · exact ⟨f, mem_cons_self, hgf.symm⟩
        · exact ⟨x, mem_cons_of_mem f hx, .refl _⟩
      · rcases hx with rfl | hx
        · exact ⟨g, mem_cons_self, hgf⟩
        · exact ⟨x, hx, .refl _⟩
    · have hrest (hx : x = f ∨ x ∈ rest) : ∃ y ∈ g :: mergeOverload h mode f rest,
          (h.overloadAt y).Alike (h.overloadAt x) := by
        obtain ⟨y, hy, hyx⟩ := ih hx
        exact ⟨y, mem_cons_of_mem g hy, hyx⟩
      rcases hx with hx | hx
      · exact hrest (.inl hx)
      rcases mem_cons.mp hx with rfl | hx
      · exact ⟨x, mem_cons_self, .refl _⟩
      · exact hrest (.inr hx)

theorem mergeOverload_keep (f : OverloadId) (family : List OverloadId) :
    family <+: mergeOverload h .keep f family := by
  induction family with
  | nil => exact nil_prefix
  | cons =>
    rw [mergeOverload]
    grind

end Scope

section Folding

variable {σ ε : Type} {step : σ → ε → σ} {I : σ → Prop}

theorem foldl_reaches {K : σ → Prop} {es : List ε} {e : ε} (he : e ∈ es)
    (hkeep : ∀ s, ∀ e ∈ es, K s → K (step s e)) (hdo : ∀ s, K s → I (step s e))
    (hstep : ∀ s, ∀ e ∈ es, K s → I s → I (step s e)) : ∀ s, K s → I (es.foldl step s) := by
  induction es with
  | nil => cases he
  | cons first es ih =>
    intro s hs
    have hfirst := hkeep s first mem_cons_self hs
    rcases mem_cons.mp he with rfl | he
    · refine (foldlRecOn (motive := fun s => K s ∧ I s) es step ⟨hfirst, hdo s hs⟩
        fun s h e' he' => ?_).2
      simp_all
    · simp_all

end Folding

structure Scope.Every (P : String → OverloadId → Prop) (Q : String → Variable → Prop)
    (R : String → ClassId → Prop) (sc : Scope) : Prop where
  functions : ∀ e ∈ sc.functions.entries, ∀ f ∈ e.2, P e.1 f
  vars : ∀ e ∈ sc.vars.entries, Q e.1 e.2
  classes : ∀ e ∈ sc.classes.entries, R e.1 e.2

def Scope.Apart (h : Heap) (sc : Scope) : Prop :=
  ∀ e ∈ sc.functions.entries, h.Apart e.2

def Scope.Offers (h : Heap) (name : String) (f : OverloadId) (sc : Scope) : Prop :=
  ∃ family, sc.functions.find? name = some family ∧
    ∃ g ∈ family, (h.overloadAt g).Alike (h.overloadAt f)

namespace Scope

variable {h : Heap} {mode : MergeMode}
variable {name : String} {f : OverloadId} {source target : Scope} {family : List OverloadId}
variable {I : Scope → Prop}

theorem merge_keeps (source : Scope)
    (hclass : ∀ s, ∀ e ∈ source.classes.entries, I s → I (mergeClass mode s e.1 e.2))
    (hfamily : ∀ s, ∀ e ∈ source.functions.entries, I s → I (mergeFamily h mode s e.1 e.2))
    (hvar : ∀ s, ∀ e ∈ source.vars.entries, I s → I (mergeVariable h mode s e.1 e.2))
    (target : Scope) (htarget : I target) : I (merge h mode source target) :=
  foldlRecOn source.vars.entries _
    (foldlRecOn source.functions.entries _
      (foldlRecOn source.classes.entries _ htarget fun s hs e he => hclass s e he hs)
      fun s hs e he => hfamily s e he hs)
    fun s hs e he => hvar s e he hs

def withFunction (h : Heap) (mode : MergeMode) (name : String) (f : OverloadId)
    (functions : OrderedMap String (List OverloadId)) : OrderedMap String (List OverloadId) :=
  functions.insert name (mergeOverload h mode f ((functions.find? name).getD []))

theorem mergeFamily_keeps (name : String) (family : List OverloadId)
    (hstep : ∀ s, ∀ f ∈ family, ¬ (mode = .keep ∧ h.isConstructor (h.overloadAt f) = true) → I s →
      I { s with functions := withFunction h mode name f s.functions })
    (target : Scope) (htarget : I target) : I (mergeFamily h mode target name family) := by
  refine foldlRecOn family _ htarget fun s hs f hf => ?_
  split
  · exact hs
  · rename_i hskip
    exact hstep s f hf hskip hs

theorem mem_family {sc : Scope} (hf : f ∈ (sc.functions.find? name).getD []) :
    ∃ e ∈ sc.functions.entries, e.1 = name ∧ f ∈ e.2 := by
  cases hfamily : sc.functions.find? name with
  | none =>
    rw [hfamily] at hf
    cases hf
  | some family =>
    rw [hfamily] at hf
    exact ⟨(name, family), mem_of_find? hfamily, rfl, hf⟩

theorem apart_find {functions : OrderedMap String (List OverloadId)}
    (hfunctions : ∀ e ∈ functions.entries, h.Apart e.2) (name : String) :
    h.Apart ((functions.find? name).getD []) := by
  cases hfamily : functions.find? name with
  | none => exact List.Pairwise.nil
  | some family => exact hfunctions _ (mem_of_find? hfamily)

theorem mergeVariable_cases (h : Heap) (mode : MergeMode) (s : Scope) (name : String)
    (v : Variable) :
    mergeVariable h mode s name v = s ∨
      mergeVariable h mode s name v = { s with vars := s.vars.insert name v } ∧
        (s.vars.find? name = none ∨ mode = .replace) := by
  unfold mergeVariable
  cases s.vars.find? name with
  | none => exact .inr ⟨rfl, .inl rfl⟩
  | some existing => grind

theorem merge_every {P : String → OverloadId → Prop} {Q : String → Variable → Prop}
    {R : String → ClassId → Prop} (htarget : target.Every P Q R)
    (hsource : source.Every (fun name f =>
      ¬ (mode = .keep ∧ h.isConstructor (h.overloadAt f) = true) → P name f) Q R) :
    (merge h mode source target).Every P Q R := by
  refine merge_keeps source (fun s e he hs => ?_) (fun s e he hs => ?_) (fun s e he hs => ?_)
    target htarget
  · unfold mergeClass
    split
    · refine ⟨hs.functions, hs.vars, fun x hx => ?_⟩
      rcases mem_insertIn hx with rfl | hx
      · exact hsource.classes e he
      · exact hs.classes x hx
    · exact hs
  · refine mergeFamily_keeps e.1 e.2 (fun s f hf hskip hs => ?_) s hs
    refine ⟨fun x hx g hg => ?_, hs.vars, hs.classes⟩
    rcases mem_insertIn hx with rfl | hx
    · rcases mem_mergeOverload hg with rfl | hg
      · exact hsource.functions e he g hf hskip
      · obtain ⟨x, hx, hname, hg⟩ := mem_family hg
        rw [← hname]
        exact hs.functions x hx g hg
    · exact hs.functions x hx g hg
  · rcases mergeVariable_cases h mode s e.1 e.2 with hsame | ⟨hnew, _⟩
    · rw [hsame]
      exact hs
    · rw [hnew]
      refine ⟨hs.functions, fun x hx => ?_, hs.classes⟩
      rcases mem_insertIn hx with rfl | hx
      · exact hsource.vars e he
      · exact hs.vars x hx

theorem mergeClass_functions (s : Scope) (name : String) (c : ClassId) :
    (mergeClass mode s name c).functions = s.functions := by
  unfold mergeClass
  split <;> rfl

theorem mergeVariable_functions (s : Scope) (name : String) (v : Variable) :
    (mergeVariable h mode s name v).functions = s.functions := by
  rcases mergeVariable_cases h mode s name v with hsame | ⟨hnew, _⟩
  · rw [hsame]
  · rw [hnew]

theorem merge_keeps_functions {J : OrderedMap String (List OverloadId) → Prop} (source : Scope)
    (hstep : ∀ (fs : OrderedMap String (List OverloadId)) (name : String) (f : OverloadId), J fs →
      J (withFunction h mode name f fs))
    (target : Scope) (htarget : J target.functions) : J (merge h mode source target).functions := by
  refine merge_keeps (I := fun s => J s.functions) source (fun s e _ hs => ?_) (fun s e _ hs => ?_)
    (fun s e _ hs => ?_) target htarget
  · rw [mergeClass_functions]
    exact hs
  · exact mergeFamily_keeps (I := fun s => J s.functions) e.1 e.2
      (fun s f _ _ hs => hstep s.functions e.1 f hs) s hs
  · rw [mergeVariable_functions]
    exact hs

theorem merge_apart (mode : MergeMode) (source : Scope) (htarget : target.Apart h) :
    (merge h mode source target).Apart h := by
  refine merge_keeps_functions (J := fun fs => ∀ e ∈ fs.entries, h.Apart e.2) source
    (fun fs name f hfs x hx => ?_) target htarget
  rcases mem_insertIn hx with rfl | hx
  · exact mergeOverload_apart (apart_find hfs name) f
  · exact hfs x hx

theorem insert_offers (hd : h.Distinct) {fs : OrderedMap String (List OverloadId)}
    {name' : String} {x : OverloadId}
    (hx : (name = name' ∧ x = f) ∨ ∃ family, fs.find? name' = some family ∧
      ∃ g ∈ family, (h.overloadAt g).Alike (h.overloadAt x)) :
    ∃ family, (withFunction h mode name f fs).find? name' = some family ∧
      ∃ g ∈ family, (h.overloadAt g).Alike (h.overloadAt x) := by
  rw [withFunction, find?_insert]
  split
  · next hname =>
    refine ⟨_, rfl, ?_⟩
    rcases hx with ⟨_, rfl⟩ | ⟨family, hfamily, g, hg, hgx⟩
    · exact mergeOverload_alike mode hd (.inl rfl)
    · rw [hname, hfamily]
      obtain ⟨y, hy, hyg⟩ := mergeOverload_alike mode hd (f := f) (.inr hg)
      exact ⟨y, hy, hyg.trans hgx⟩
  · simp_all

theorem merge_offers (hd : h.Distinct)
    (htarget : target.Offers h name f) : (merge h mode source target).Offers h name f :=
  merge_keeps_functions (J := fun fs => ∃ family, fs.find? name = some family ∧
      ∃ g ∈ family, (h.overloadAt g).Alike (h.overloadAt f)) source
    (fun _ _ _ hfs => insert_offers hd (.inr hfs)) target htarget

theorem merge_offers_source (hd : h.Distinct) (target : Scope)
    (hfamily : (name, family) ∈ source.functions.entries) (hf : f ∈ family)
    (hskip : ¬ (mode = .keep ∧ h.isConstructor (h.overloadAt f) = true)) :
    (merge h mode source target).Offers h name f := by
  have hkeep (s : Scope) (name' : String) (family' : List OverloadId) (hs : s.Offers h name f) :
      (mergeFamily h mode s name' family').Offers h name f :=
    mergeFamily_keeps name' family' (fun s g _ _ hs => insert_offers hd (.inr hs)) s hs
  have hdo (s : Scope) : (mergeFamily h mode s name family).Offers h name f := by
    refine foldl_reaches (I := Offers h name f) (K := fun _ => True) hf (fun _ _ _ h => h)
      (fun s _ => ?_) (fun s g _ _ hs => ?_) s trivial
    · rw [if_neg hskip]
      exact insert_offers hd (.inl ⟨rfl, rfl⟩)
    · split
      · exact hs
      · exact insert_offers hd (.inr hs)
  refine foldlRecOn (motive := Offers h name f) source.vars.entries _
    (foldl_reaches (I := Offers h name f) (K := fun _ => True) hfamily (fun _ _ _ h => h)
      (fun s _ => hdo s) (fun s e _ _ hs => hkeep s e.1 e.2 hs) _ trivial) fun s hs e _ => ?_
  unfold Offers
  rw [mergeVariable_functions]
  exact hs

theorem merge_keep_family (htarget : target.functions.find? name = some family) :
    ∃ more, (merge h .keep source target).functions.find? name = some (family ++ more) := by
  refine merge_keeps_functions (J := fun fs => ∃ more, fs.find? name = some (family ++ more)) source
    (fun fs name' f hfs => ?_) target ⟨[], by rw [htarget, append_nil]⟩
  obtain ⟨more, hmore⟩ := hfs
  rw [withFunction, find?_insert]
  split
  · next hname =>
    obtain ⟨rest, hrest⟩ := mergeOverload_keep (h := h) f (family ++ more)
    grind
  · exact ⟨more, hmore⟩

theorem merge_keep_variable {v : Variable} (htarget : target.vars.find? name = some v) :
    (merge h .keep source target).vars.find? name = some v := by
  refine merge_keeps (I := fun s => s.vars.find? name = some v) source (fun s e _ hs => ?_)
    (fun s e _ hs => ?_) (fun s e _ hs => ?_) target htarget
  · unfold mergeClass
    split <;> exact hs
  · exact mergeFamily_keeps (I := fun s => s.vars.find? name = some v) e.1 e.2
      (fun _ _ _ _ hs => hs) s hs
  · rcases mergeVariable_cases h .keep s e.1 e.2 with hsame | ⟨hnew, hnone | hmode⟩
    · rw [hsame]
      exact hs
    · -- The incoming variable has another name.
      have hname : e.1 ≠ name := fun hname => by
        rw [hname, hs] at hnone
        cases hnone
      rw [hnew, find?_insert, if_neg hname]
      exact hs
    · cases hmode

end Scope

end ClassScript
