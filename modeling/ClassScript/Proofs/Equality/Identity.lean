import ClassScript.Proofs.Ages
import ClassScript.Proofs.Builtin
import ClassScript.Proofs.Inheritance.Fields

/-!
# Which Equality an Object Has

What an object is made of never changes, and only instances have classes of scripts. So a list has
the equality of lists at any time of a session, and a dict that of dicts. A class of a script has no
equality before it takes over operators, and then that of its super classes: identity, if `object`
is the only built-in class above it.

## Main definitions

* `Heap.Formed`: Objects that are no instances have the class for what they are made of.
* `Heap.Equated`: Classes of scripts have equality from their super classes only.
* `Heap.Ordinary`: A class that took over operators in order, from `object` and classes of scripts.

## Theorems

* `InSession.formed`, `InSession.equated`: Both are so at any time of a session.
* `Heap.Equated.identity`: The instances of an ordinary class are compared by identity.
-/

namespace ClassScript

open List Heap

variable {m₀ m m' : Machine} {h h' : Heap}

/-! ## Classes of objects -/

def Heap.Formed (h : Heap) : Prop :=
  ∀ o, (∀ s, h.payloadOf o ≠ .fields s) → (h.payloadOf o).Fits (h.objectAt o).type

theorem Payload.Fits.change {p : Payload} {c : ClassId} (hp : p.Fits c) (f : Payload → Payload) :
    (p.change f).Fits c := by
  unfold Payload.change
  cases hp <;> split <;> first | constructor | simp_all

namespace Heap

theorem Formed.typeOf_eq (hh : h.Formed) {o : ObjectId} {p : Payload} {c : ClassId}
    (hp : h.payloadOf o = p) (hnone : ∀ s, p ≠ .fields s) (hc : ∀ d, p.Fits d → d = c) :
    h.typeOf (.object o) = c := by
  subst hp
  exact hc _ (hh o hnone)

theorem Formed.of_objects (hh : h.Formed) (hobjects : h'.objects = h.objects) : h'.Formed := by
  unfold Formed payloadOf objectAt
  rw [hobjects]
  exact hh

theorem Formed.push (hh : h.Formed) {o : Object} (hobjects : h'.objects = h.objects.push o)
    (ho : (∀ s, o.payload ≠ .fields s) → o.payload.Fits o.type) : h'.Formed := by
  unfold Formed payloadOf objectAt
  rw [hobjects]
  intro id
  rw [getD_push]
  split
  · exact ho
  · exact hh id

theorem Formed.updatePayload (hh : h.Formed) (id : ObjectId) (f : Payload → Payload) :
    (h.updatePayload id f).Formed := by
  intro o ho
  have hold := hh o fun s hs => ho s ((payloadOf_updatePayload f id o s).mpr hs)
  unfold payloadOf objectAt Heap.updatePayload
  rw [getD_modify_eq]
  split
  · next hid => exact hid.1 ▸ hold.change f
  · exact hold

end Heap

theorem Machine.Moves.formed (hmove : m.Moves m') (hh : m.heap.Formed) : m'.heap.Formed := by
  cases hmove.step with
  | still hheap => exact hheap ▸ hh
  | write hf =>
    cases hf with
    | contents id f => exact hh.updatePayload id f
    | _ => exact hh.of_objects rfl
  | create hf =>
    cases hf with
    | object type payload _ hp => exact hh.push (o := ⟨type, payload⟩) rfl fun _ => hp
    | callable => exact hh.of_objects rfl
  | newInstance type => exact hh.push rfl fun hnone => absurd rfl (hnone _)
  | flatten c => exact hh.of_objects (m.heap.flatten_objects c)
  | _ => exact hh.of_objects rfl

theorem InSession.formed (hm : InSession m₀) (hrun : m₀.Runs m) : m.heap.Formed := by
  refine hrun.keeps (I := fun m => m.heap.Formed) (fun _ _ => Machine.Moves.formed)
    (hm.invariant (fun config disk hosts => ?_) fun _ _ => Machine.Moves.formed)
  intro o _
  unfold payloadOf objectAt
  rw [Machine.initial_objects]
  exact .host

/-! ## Equality that is taken over -/

theorem OrderedMap.find?_joined {κ α : Type} [DecidableEq κ] (k : κ) (ts : List (OrderedMap κ α)) :
    (∀ a, (ofList (ts.flatMap entries)).find? k = some a → ∃ t ∈ ts, t.find? k = some a) ∧
      ((ofList (ts.flatMap entries)).find? k = none → ∀ t ∈ ts, t.find? k = none) := by
  have hfold : ∀ found : Option α,
      let all := ts.foldl (fun found t => (t.find? k).or found) found
      (∀ a, all = some a → found = some a ∨ ∃ t ∈ ts, t.find? k = some a) ∧
        (all = none → found = none ∧ ∀ t ∈ ts, t.find? k = none) := by
    induction ts with
    | nil => exact fun found => ⟨fun a h => .inl h, fun h => ⟨h, nofun⟩⟩
    | cons t ts ih =>
      intro found
      obtain ⟨hsome, hnone⟩ := ih ((t.find? k).or found)
      refine ⟨fun a h => ?_, fun h => ?_⟩
      · rcases hsome a h with hfirst | ⟨t', ht', hfind⟩
        · rcases Option.or_eq_some_iff.mp hfirst with hfind | ⟨-, hfound⟩
          · exact .inr ⟨t, mem_cons_self, hfind⟩
          · exact .inl hfound
        · exact .inr ⟨t', mem_cons_of_mem t ht', hfind⟩
      · obtain ⟨hfirst, hrest⟩ := hnone h
        obtain ⟨ht, hfound⟩ := Option.or_eq_none_iff.mp hfirst
        exact ⟨hfound, forall_mem_cons.mpr ⟨ht, hrest⟩⟩
  rw [find?_ofList_flatMap]
  exact ⟨fun a h => ((hfold none).1 a h).resolve_left nofun, fun h => ((hfold none).2 h).2⟩

namespace Heap

variable {modules modules' : List (String × ClassId)} {c p g : ClassId}

def equality? (h : Heap) (c : ClassId) : Option OperatorFamily :=
  (h.classAt c).operators.find? .eq

/-- A class has equality exactly if one of its super classes has it, and then the same one. -/
structure TakesEquality (h : Heap) (c : ClassId) : Prop where
  origin : ∀ family, h.equality? c = some family →
    ∃ p ∈ (h.classAt c).supers, h.equality? p = some family
  all : h.equality? c = none → ∀ p ∈ (h.classAt c).supers, h.equality? p = none

/-- The classes that are there before a program runs. -/
def IsWorld (c : ClassId) : Prop :=
  c < World.heap.2.classes.size

structure Equated (h : Heap) : Prop where
  size : World.heap.2.classes.size ≤ h.classes.size
  root : h.equality? ClassId.object = some .object ∧ (h.classAt ClassId.object).supers = []
  bare : ∀ c, ¬ IsWorld c → (h.classAt c).ancestors = none → (h.classAt c).operators = .empty
  taken : ∀ c g, ¬ IsWorld c → (h.classAt c).ancestors = some g →
    (∀ p ∈ (h.classAt c).supers, h.Passed p g) → h.TakesEquality c

theorem Becomes.equality (hp : h.Becomes p (h'.classAt p)) (hpassed : h'.Passed p g)
    (hlt : p < h.classes.size) (hg : g ≤ h.classes.size) : h'.equality? p = h.equality? p := by
  have hfinished := hpassed.finished
  unfold Finished at hfinished
  unfold equality?
  generalize h'.classAt p = k at hp hfinished ⊢
  cases hp with
  | same | field => rfl
  | new _ hsize => exact absurd hlt (hsize ▸ Nat.lt_irrefl _)
  | taken => exact absurd (Nat.lt_of_lt_of_le (hfinished _ rfl) hg) (Nat.lt_irrefl _)

theorem Becomes.settles (hc : h.Becomes c (h'.classAt c))
    (hg : (h'.classAt c).ancestors = some g) :
    ((h.classAt c).ancestors = some g ∧ (h'.classAt c).operators = (h.classAt c).operators) ∨
      c < h.classes.size ∧ (h.classAt c).ancestors = none ∧ g = h.classes.size ∧
        (h'.classAt c).operators = h.inheritedOperators (h.classAt c) := by
  generalize h'.classAt c = k at hc hg ⊢
  cases hc with
  | same => exact .inl ⟨hg, rfl⟩
  | new _ _ hnone | field _ _ _ _ hnone => exact absurd (hnone.symm.trans hg) nofun
  | taken hlt hnone => exact .inr ⟨hlt, hnone, (Option.some.inj hg).symm, rfl⟩

theorem TakesEquality.matures (hc : h.TakesEquality c) (hm : h.Matures modules h' modules')
    (hlt : c < h.classes.size) (hsame : h'.equality? c = h.equality? c)
    (hsupers : ∀ p ∈ (h.classAt c).supers, h'.equality? p = h.equality? p) :
    h'.TakesEquality c := by
  refine ⟨fun family hfamily => ?_, fun hnone p hp => ?_⟩
  · rw [hm.extend.supers c hlt]
    obtain ⟨p, hp, hfound⟩ := hc.origin family (hsame.symm.trans hfamily)
    exact ⟨p, hp, (hsupers p hp).trans hfound⟩
  · rw [hm.extend.supers c hlt] at hp
    exact (hsupers p hp).trans (hc.all (hsame.symm.trans hnone) p hp)

theorem TakesEquality.taken (hm : h.Matures modules h' modules') (hlt : c < h.classes.size)
    (hsame : h'.equality? c = (h.inheritedOperators (h.classAt c)).find? .eq)
    (hempty : (h.classAt c).operators = .empty)
    (hsupers : ∀ p ∈ (h.classAt c).supers, h'.equality? p = h.equality? p) :
    h'.TakesEquality c := by
  obtain ⟨hsome, hnone⟩ := OrderedMap.find?_joined Operator.eq
    ((h.classAt c).supers.map (fun p => (h.classAt p).operators) ++ [(h.classAt c).operators])
  rw [← inheritedOperators_eq, ← hsame] at hsome hnone
  refine ⟨fun family hfamily => ?_, fun h' p hp => ?_⟩
  · rw [hm.extend.supers c hlt]
    obtain ⟨t, ht, hfound⟩ := hsome family hfamily
    rcases mem_append.mp ht with ht | ht
    · obtain ⟨p, hp, rfl⟩ := mem_map.mp ht
      exact ⟨p, hp, (hsupers p hp).trans hfound⟩
    · rw [mem_singleton.mp ht, hempty] at hfound
      cases hfound
  · rw [hm.extend.supers c hlt] at hp
    exact (hsupers p hp).trans (hnone h' _ (mem_append_left _ (mem_map.mpr ⟨p, hp, rfl⟩)))

theorem Equated.matures (hh : h.Equated) (hm : h.Matures modules h' modules') : h'.Equated where
  size := Nat.le_trans hh.size hm.extend.grows.classes
  root := by
    have hbecomes := hm.classes ClassId.object
    unfold equality?
    generalize h'.classAt ClassId.object = k at hbecomes ⊢
    cases hbecomes with
    | same => exact hh.root
    | new _ hsize =>
      have hthere : ClassId.object < World.heap.2.classes.size := by decide +kernel
      exact absurd (Nat.lt_of_lt_of_le hthere hh.size) (hsize ▸ Nat.lt_irrefl _)
    | field _ _ _ hobject => exact absurd rfl hobject
    | taken =>
      refine ⟨?_, hh.root.2⟩
      dsimp only
      rw [inheritedOperators_eq, hh.root.2, OrderedMap.find?_ofList_flatMap]
      exact (Option.or_none).trans hh.root.1
  bare c hworld hnone := by
    have hbecomes := hm.classes c
    generalize h'.classAt c = k at hbecomes hnone ⊢
    cases hbecomes with
    | same | field => exact hh.bare c hworld hnone
    | new _ _ _ _ hoperators => exact hoperators
    | taken => cases hnone
  taken c g hworld hg hpassed := by
    have hsupers (hlt : c < h.classes.size) (hle : g ≤ h.classes.size) (p : ClassId)
        (hp : p ∈ (h.classAt c).supers) : h'.equality? p = h.equality? p := by
      have hp' : p ∈ (h'.classAt c).supers := by rwa [hm.extend.supers c hlt]
      exact (hm.classes p).equality (hpassed p hp') (hm.owned.supers c p hp).2.lt hle
    rcases (hm.classes c).settles hg with ⟨hold, hsame⟩ | ⟨hlt, hnone, rfl, hjoined⟩
    · have hlt := lt_of_ancestors hold
      have hglt := hm.owned.shadows c g hold
      have hc := hh.taken c g hworld hold fun p hp => (hpassed p (by
        rwa [hm.extend.supers c hlt])).before hm (hm.owned.supers c p hp).2.lt hglt
      exact hc.matures hm hlt (congrArg (OrderedMap.find? · Operator.eq) hsame)
        (hsupers hlt (Nat.le_of_lt hglt))
    · exact .taken hm hlt (congrArg (OrderedMap.find? · Operator.eq) hjoined)
        (hh.bare c hworld hnone) (hsupers hlt le_rfl)

/-- A class that took over operators after its super classes, of which `object` is the only one that
    is built in. -/
structure Ordinary (h : Heap) (c : ClassId) : Prop where
  order : h.InOrder c
  below : h.Descends c ClassId.object
  only : ∀ e, h.Descends c e → IsWorld e → e = ClassId.object

theorem Equated.identity_or_none (hh : h.Equated) (ho : h.Owned modules) (c : ClassId)
    (hc : h.InOrder c) (honly : ∀ e, h.Descends c e → IsWorld e → e = ClassId.object) :
    (∀ family, h.equality? c = some family → family = .object) ∧
      (h.equality? c = none → ¬ h.Descends c ClassId.object) := by
  induction c using Nat.strongRecOn with
  | _ c ih =>
    by_cases hworld : IsWorld c
    · obtain rfl := honly c (.self c) hworld
      rw [hh.root.1]
      exact ⟨fun family h => (Option.some.inj h).symm, nofun⟩
    have hsupers (p : ClassId) (hp : p ∈ (h.classAt c).supers) :=
      ih p (ho.supers c p hp).1 (hc.super hp) fun e he => honly e (.super hp he)
    have hne : c ≠ ClassId.object := by
      rintro rfl
      exact hworld (by unfold IsWorld; decide +kernel)
    obtain ⟨hbare, htaken⟩ := hc c (.self c)
    cases hancestors : (h.classAt c).ancestors with
    | none =>
      have hnone : h.equality? c = none := by rw [equality?, hh.bare c hworld hancestors]; rfl
      refine ⟨fun family h => absurd (hnone.symm.trans h) nofun, fun _ hbelow => ?_⟩
      cases hbelow with
      | self => exact hne rfl
      | super hp => simp [hbare hancestors] at hp
    | some g =>
      have htakes := hh.taken c g hworld hancestors fun p hp =>
        ⟨htaken g hancestors p hp, (hc p (.super hp (.self p))).1⟩
      refine ⟨fun family hfamily => ?_, fun hnone hbelow => ?_⟩
      · obtain ⟨p, hp, hfound⟩ := htakes.origin family hfamily
        exact (hsupers p hp).1 family hfound
      · cases hbelow with
        | self => exact hne rfl
        | super hp ha => exact (hsupers _ hp).2 (htakes.all hnone _ hp) ha

theorem Equated.identity (hh : h.Equated) (ho : h.Owned modules) (hc : h.Ordinary c) :
    h.equality? c = some .object := by
  obtain ⟨hsome, hnone⟩ := hh.identity_or_none ho c hc.order hc.only
  cases hfound : h.equality? c with
  | none => exact absurd hc.below (hnone hfound)
  | some family => rw [hsome family hfound]

end Heap

theorem World.heap_equated : heap.2.Equated := by
  have hnew (h : Heap) (c : ClassId) (hc : ¬ c < h.classes.size) :
      (h.classAt c).operators = .empty ∧ (h.classAt c).ancestors = none := by
    rw [show h.classAt c = default from getD_of_size_le (Nat.not_lt.mp hc) _]
    exact ⟨rfl, rfl⟩
  refine ⟨le_rfl, by decide +kernel, fun c hc _ => (hnew _ c hc).1, fun c g hc hg => ?_⟩
  exact absurd ((hnew _ c hc).2.symm.trans hg) nofun

theorem InSession.equated (hm : InSession m₀) (hrun : m₀.Runs m) : m.heap.Equated :=
  InSession.keeps World.heap_equated (fun _ _ _ _ hstep hh => hh.matures hstep) hm hrun

end ClassScript
