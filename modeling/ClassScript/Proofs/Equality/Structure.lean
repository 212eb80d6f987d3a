import ClassScript.Proofs.Equality.Identity
import ClassScript.Proofs.Printing

/-!
# Equality of Structures

Lists and dicts are compared by what is in them. A container that is already being walked, by this
comparison or by something around it, equals only itself. So values that are found to be equal have
the same structure; the converse needs that the first one holds nothing that is being walked. The
containers on the way are different objects of the heap, so the bound on the nesting is not met.
-/

namespace ClassScript

open List
open Eval hiding pure

namespace Heap

variable {h : Heap} {id : ObjectId} {a b v w : Value} {walking : List ObjectId}
variable {k : Nat ⊕ Value} {P : Value → Prop} {xs ys : Array Value} {ds es : Entries}

/-- The operators that are built in for what a value is made of. -/
def form (h : Heap) : Value → OperatorFamily
  | .null => .null
  | .bool _ => .bool
  | .int _ | .float _ | .decimal _ => .number
  | .str _ => .str
  | .function _ => .function
  | .type _ => .object
  | .object id =>
    match h.payloadOf id with
    | .list _ => .list
    | .dict _ => .dict
    | .range _ => .range
    | .fields _ | .enumerator _ | .host _ => .object

/-- What a container has at an index or for a key. -/
def part? (h : Heap) (v : Value) : Nat ⊕ Value → Option Value
  | .inl i => (h.items? v).bind (·[i]?)
  | .inr k => (h.entries? v).bind (·.find? k)

def Comprises (h : Heap) : Value → Value → Prop :=
  Relation.ReflTransGen fun v w => ∃ k, h.part? v k = some w

def Acyclic (h : Heap) (v : Value) : Prop :=
  Acc (fun w v => ∃ k, h.part? v k = some w) v

/-- Two values have the same structure: lists item by item, and dicts for the same keys. -/
inductive Alike (h : Heap) : Value → Value → Prop
  | refl (v : Value) : Alike h v v
  | parts {a b : Value} (hform : h.form a = h.form b) (hcontainer : h.form a ∈ [.list, .dict])
      (hplaces : ∀ k, (h.part? a k).isSome = (h.part? b k).isSome)
      (hparts : ∀ k v w, h.part? a k = some v → h.part? b k = some w → Alike h v w) : Alike h a b

/-- The class of a value has the equality for what the value is made of, and no function for it. -/
structure ComparesItself (h : Heap) (v : Value) : Prop where
  scripted : h.scripted v .eq 1 = []
  family : (h.classAt (h.typeOf v)).operators.find? .eq = some (h.form v)

/-- Something is true of all that a value holds. -/
def Throughout (h : Heap) (P : Value → Prop) (v : Value) : Prop :=
  ∀ w, h.Comprises v w → P w

/-- An object that has the equality for what it is made of, or what is no object, but a number if
    it is a float. -/
structure Regular (h : Heap) (v : Value) : Prop where
  itself : ∀ id, v = .object id → h.ComparesItself v
  number : ∀ x, v = .float x → x.isNaN = false

/-- What a value of the plainest kinds is: a scalar, a container, or an instance of an ordinary
    class without a function for `==`. -/
inductive Basic (h : Heap) : Value → Prop
  | null : Basic h .null
  | bool (x : Bool) : Basic h (.bool x)
  | int (n : Int64) : Basic h (.int n)
  | str (s : String) : Basic h (.str s)
  | fields {id : ObjectId} {scope : ScopeId} (hp : h.payloadOf id = .fields scope)
      (hclass : h.Ordinary (h.typeOf (.object id))) (hscript : h.scripted (.object id) .eq 1 = []) :
      Basic h (.object id)
  | list {id : ObjectId} {xs : Array Value} (hp : h.payloadOf id = .list xs) : Basic h (.object id)
  | dict {id : ObjectId} {es : Entries} (hp : h.payloadOf id = .dict es) : Basic h (.object id)

/-- Data that is made of the plainest kinds, inside itself or not. -/
def Comparable (h : Heap) (v : Value) : Prop :=
  h.Throughout h.Basic v

/-- What is no object, or of the plainest kinds, has the equality for what it is made of. -/
def Plain (h : Heap) : Prop :=
  ∀ v, (∀ id, v = .object id → h.Basic v) → v = .null ∨ h.ComparesItself v

/-- Values whose comparison has an answer. -/
inductive Compares (h : Heap) (a : Value) : Value → Prop
  | itself (ha : h.Throughout h.Regular a) : Compares h a a
  | basic {b : Value} (ha : h.Comparable a) (hb : h.Comparable b) : Compares h a b

/-- Values that are found to be equal while some containers are being walked. -/
inductive Matches (h : Heap) (walking : List ObjectId) (a : Value) : Value → Prop
  | itself : Matches h walking a a
  | alike {b : Value} (hab : h.Alike a b) (ha : h.Acyclic a)
      (hfree : ∀ id ∈ walking, ¬ h.Comprises a (.object id)) : Matches h walking a b

theorem Throughout.part (hv : h.Throughout P v) (hw : h.part? v k = some w) : h.Throughout P w :=
  fun u hu => hv u (.head ⟨k, hw⟩ hu)

theorem Plain.itself (hplain : h.Plain) (ha : ∀ id, a = .object id → h.ComparesItself a) :
    a = .null ∨ h.ComparesItself a := by
  by_cases hobject : ∃ id, a = .object id
  · obtain ⟨id, hid⟩ := hobject
    exact .inr (ha id hid)
  · exact hplain a fun id hid => absurd ⟨id, hid⟩ hobject

theorem Plain.regular (hplain : h.Plain) (ha : h.Basic a) : h.Regular a := by
  refine ⟨?_, ?_⟩
  · rintro id rfl
    exact (hplain _ fun _ _ => ha).resolve_left nofun
  · rintro x rfl
    cases ha

theorem Compares.regular (hplain : h.Plain) (hab : h.Compares a b) : h.Regular a := by
  cases hab with
  | itself ha => exact ha a .refl
  | basic ha => exact hplain.regular (ha a .refl)

theorem Compares.part (hab : h.Compares a b) (hv : h.part? a k = some v)
    (hw : h.part? b k = some w) : h.Compares v w := by
  cases hab with
  | itself ha =>
    cases hv.symm.trans hw
    exact .itself (ha.part hv)
  | basic ha hb => exact .basic (ha.part hv) (hb.part hw)

theorem Acyclic.not_comprises (hv : h.Acyclic v) (hw : h.part? v k = some w) :
    ¬ h.Comprises w v := by
  induction hv generalizing w k with
  | intro v _ ih =>
    intro hback
    rcases hback.cases_head with rfl | ⟨u, ⟨k', hu⟩, hrest⟩
    · exact ih _ ⟨k, hw⟩ hw .refl
    · exact ih w ⟨k, hw⟩ hu (hrest.tail ⟨k, hw⟩)

theorem Matches.part (hab : h.Matches walking (.object id) b) (hv : h.part? (.object id) k = some v)
    (hw : h.part? b k = some w) : h.Matches (id :: walking) v w := by
  cases hab with
  | itself =>
    cases hv.symm.trans hw
    exact .itself
  | alike hab ha hfree =>
    cases hab with
    | refl =>
      cases hv.symm.trans hw
      exact .itself
    | parts _ _ _ hparts =>
      exact .alike (hparts k v w hv hw) (ha.inv ⟨k, hv⟩) (forall_mem_cons.mpr
        ⟨ha.not_comprises hv, fun i hi hvi => hfree i hi (.head ⟨k, hv⟩ hvi)⟩)

theorem Matches.places (hab : h.Matches walking a b) :
    h.form a = h.form b ∧ ∀ k, (h.part? a k).isSome = (h.part? b k).isSome := by
  cases hab with
  | itself => exact ⟨rfl, fun _ => rfl⟩
  | alike hab =>
    cases hab with
    | refl => exact ⟨rfl, fun _ => rfl⟩
    | parts hform _ hplaces => exact ⟨hform, hplaces⟩

theorem Matches.eq_of_form (hab : h.Matches walking a b) (hform : h.form a ∉ [.list, .dict]) :
    a = b := by
  cases hab with
  | itself => rfl
  | alike hab =>
    cases hab with
    | refl => rfl
    | parts _ hcontainer => exact absurd hcontainer hform

theorem Matches.eq_of_walked (hab : h.Matches walking (.object id) b) (hid : id ∈ walking) :
    .object id = b := by
  cases hab with
  | itself => rfl
  | alike _ _ hfree => exact absurd .refl (hfree id hid)

theorem Alike.symm (hab : h.Alike a b) : h.Alike b a := by
  induction hab with
  | refl v => exact .refl v
  | parts hform hcontainer hplaces _ ih =>
    exact .parts hform.symm (hform ▸ hcontainer) (fun k => (hplaces k).symm)
      fun k v w hv hw => ih k w v hw hv

theorem Alike.acyclic (hab : h.Alike a b) (ha : h.Acyclic a) : h.Acyclic b := by
  induction hab with
  | refl v => exact ha
  | parts _ _ hplaces _ ih =>
    refine .intro _ fun w ⟨k, hw⟩ => ?_
    obtain ⟨v, hv⟩ := Option.isSome_iff_exists.mp ((hplaces k).trans (hw ▸ rfl))
    exact ih k v w hv hw (ha.inv ⟨k, hv⟩)

/-! ## Parts of lists and dicts -/

theorem of_items? (hv : h.items? v = some xs) :
    h.form v = .list ∧ h.part? v = Sum.elim (fun i => xs[i]?) fun _ => none := by
  unfold items? at hv
  refine ⟨by unfold form; grind, funext fun k => ?_⟩
  cases k <;> simp only [part?, items?, entries?, Sum.elim_inl, Sum.elim_inr] <;> grind

theorem Basic.of_container (hv : (h.items? v).isSome ∨ (h.entries? v).isSome) : h.Basic v := by
  cases v with
  | object id =>
    cases hp : h.payloadOf id with
    | list => exact .list hp
    | dict => exact .dict hp
    | _ => simp [items?, entries?, hp] at hv
  | _ => simp [items?, entries?] at hv

theorem of_entries? (hv : h.entries? v = some es) :
    h.form v = .dict ∧ h.part? v = Sum.elim (fun _ => none) es.find? := by
  unfold entries? at hv
  refine ⟨by unfold form; grind, funext fun k => ?_⟩
  cases k <;> simp only [part?, items?, entries?, Sum.elim_inl, Sum.elim_inr] <;> grind

theorem mem_parts (hw : h.part? v k = some w) : w ∈ h.parts v := by
  unfold part? items? entries? at hw
  unfold parts
  have hvalue {es : Entries} {k : Value} (hk : es.find? k = some w) : w ∈ es.values :=
    mem_map.mpr ⟨_, OrderedMap.mem_of_find? hk, rfl⟩
  grind

end Heap

/-- An answer that implies something and is implied by something. -/
def Outcome.Answers {α : Type} (f : Bool → α) (o : Outcome α) (m : Machine) (A M : Prop) : Prop :=
  ∃ answer, o = .done (f answer) m ∧ (answer = true → A) ∧ (M → answer = true)

theorem Outcome.answers_false {α : Type} {f : Bool → α} {m : Machine} {A M : Prop} (hM : ¬M) :
    (done (f false) m).Answers f m A M :=
  ⟨false, rfl, nofun, fun h => absurd h hM⟩

/-! ## What comparing does -/

namespace Operation

variable {L : Level} {b : Value} {id : ObjectId} {m : Machine} {A M : Value → Value → Prop}

theorem answers_both {x y : Eval Bool} {A M A' M' : Prop} (hx : (x m).Answers (·) m A M)
    (hy : (y m).Answers (·) m A' M') :
    ((do if ← x then y else return false : Eval Bool) m).Answers (·) m (A ∧ A') (M ∧ M') := by
  obtain ⟨answer, hdone, hA, hM⟩ := hx
  rw [bind_of_done hdone]
  cases answer with
  | true =>
    obtain ⟨answer, hdone, hA', hM'⟩ := hy
    exact ⟨answer, hdone, fun hr => ⟨hA rfl, hA' hr⟩, fun hboth => hM' hboth.2⟩
  | false => exact Outcome.answers_false fun hboth => Bool.false_ne_true (hM hboth.1)

theorem allEqual_decides {pairs : List (Value × Value)}
    (h : ∀ p ∈ pairs, (equal L p.1 p.2 m).Answers (·) m (A p.1 p.2) (M p.1 p.2)) :
    (allEqual L pairs m).Answers (·) m (∀ p ∈ pairs, A p.1 p.2) (∀ p ∈ pairs, M p.1 p.2) := by
  induction pairs with
  | nil => exact ⟨true, rfl, fun _ => nofun, fun _ => rfl⟩
  | cons p pairs ih =>
    obtain ⟨hp, hrest⟩ := forall_mem_cons.mp h
    simp only [forall_mem_cons]
    rw [allEqual]
    exact answers_both hp (ih hrest)

theorem entriesEqual_decides {others : Entries} {entries : List (Value × Value)}
    (h : ∀ e ∈ entries, ∀ w, others.find? e.1 = some w →
      (equal L e.2 w m).Answers (·) m (A e.2 w) (M e.2 w)) :
    (entriesEqual L others entries m).Answers (·) m
      (∀ e ∈ entries, ∃ w, others.find? e.1 = some w ∧ A e.2 w)
      (∀ e ∈ entries, ∃ w, others.find? e.1 = some w ∧ M e.2 w) := by
  induction entries with
  | nil => exact ⟨true, rfl, fun _ => nofun, fun _ => rfl⟩
  | cons e entries ih =>
    obtain ⟨he, hrest⟩ := forall_mem_cons.mp h
    simp only [forall_mem_cons]
    rw [entriesEqual]
    cases hfind : others.find? e.1 with
    | none => exact Outcome.answers_false fun hall => by simp at hall
    | some w =>
      simp only [Option.some.injEq, exists_eq_left']
      exact answers_both (he w hfind) (ih hrest)

theorem comparing_decides {p q : Nat} {x : Eval Bool} {A M : Prop}
    (hx : p = q → id ∉ m.registers.walking → (x (m.walk id)).Answers (·) (m.walk id) A M)
    (hsize : M → p = q) (hsame : .object id = b → A)
    (hwalked : id ∈ m.registers.walking → M → .object id = b) :
    ((if p = q then comparing (.object id) b x else (pure false : Eval Bool)) m).Answers
      (·) m A M := by
  by_cases hpq : p = q
  · rw [if_pos hpq, comparing]
    by_cases hin : id ∈ m.registers.walking
    · rw [bind_of_done (Printing.guarded_again hin)]
      exact ⟨_, rfl, fun hr => hsame (eq_of_beq hr), fun hM => beq_iff_eq.mpr (hwalked hin hM)⟩
    · obtain ⟨answer, hdone, hA, hM⟩ := hx hpq hin
      rw [bind_of_done (Printing.guarded_free hin hdone)]
      exact ⟨answer, rfl, hA, hM⟩
  · rw [if_neg hpq]
    exact Outcome.answers_false fun hM => hpq (hsize hM)

end Operation

namespace Heap

variable {h : Heap} {id : ObjectId} {a b : Value} {walking : List ObjectId}
variable {xs ys : Array Value} {ds es : Entries}

theorem size_eq_iff : xs.size = ys.size ↔ ∀ i : Nat, xs[i]?.isSome = ys[i]?.isSome := by
  refine ⟨fun h i => by grind, fun h => ?_⟩
  have hx := h xs.size
  have hy := h ys.size
  simp at hx hy
  omega

theorem keys_perm_iff : ds.keys ~ es.keys ↔ ∀ k, (ds.find? k).isSome = (es.find? k).isSome := by
  simp only [OrderedMap.isSome_find?, decide_eq_decide]
  exact perm_ext_iff_of_nodup ds.nodup es.nodup

theorem keys_perm_of_find? (hsize : ds.size = es.size)
    (hfound : ∀ e ∈ ds.entries, ∃ w, es.find? e.1 = some w) : ds.keys ~ es.keys := by
  have hsub : ds.keys ⊆ es.keys := by
    intro k hk
    obtain ⟨e, he, rfl⟩ := mem_map.mp hk
    obtain ⟨w, hw⟩ := hfound e he
    exact mem_map.mpr ⟨_, OrderedMap.mem_of_find? hw, rfl⟩
  exact (ds.nodup.subperm hsub).perm_of_length_le (by simp_all [OrderedMap.keys, OrderedMap.size])

theorem mem_zip_iff {p : Value × Value} : p ∈ xs.toList.zip ys.toList ↔
    ∃ i : Nat, xs[i]? = some p.1 ∧ ys[i]? = some p.2 := by
  simp only [mem_iff_getElem?, getElem?_zip_eq_some, Array.getElem?_toList]

theorem form_ne_list (ha : h.items? a = none) : h.form a ≠ .list := by
  unfold items? at ha
  unfold form
  grind

theorem form_ne_dict (ha : h.entries? a = none) : h.form a ≠ .dict := by
  unfold entries? at ha
  unfold form
  grind

section

variable {L : Level} {m : Machine}
  (hparts : id ∉ m.registers.walking → ∀ k v w, m.heap.part? (.object id) k = some v →
    m.heap.part? b k = some w → (Operation.equal L v w (m.walk id)).Answers (·) (m.walk id)
      (m.heap.Alike v w) (m.heap.Matches (id :: m.registers.walking) v w))
include hparts

theorem listsEqual_decides (hxs : m.heap.items? (.object id) = some xs) :
    (Operation.listsEqual L (.object id) b m).Answers (·) m (m.heap.Alike (.object id) b)
      (m.heap.Matches m.registers.walking (.object id) b) := by
  obtain ⟨hform, hpart⟩ := of_items? hxs
  rw [Operation.listsEqual, ask_bind, ask_bind, hxs]
  cases hys : m.heap.items? b with
  | none =>
    exact Outcome.answers_false fun hab => form_ne_list hys (hab.places.1.symm.trans hform)
  | some ys =>
    obtain ⟨hform', hpart'⟩ := of_items? hys
    rw [hpart, hpart'] at hparts
    refine Operation.comparing_decides (fun hsize hfree => ?_) (fun hab => ?_)
      (fun hab => hab ▸ .refl _)
      fun hin hab => hab.eq_of_walked hin
    · obtain ⟨answer, hdone, hall, hfound⟩ := Operation.allEqual_decides fun p hp =>
        (mem_zip_iff.mp hp).elim fun i hi => hparts hfree (.inl i) p.1 p.2 hi.1 hi.2
      refine ⟨answer, hdone, fun hr => .parts (hform.trans hform'.symm) (by simp [hform]) ?_ ?_,
        fun hab => hfound fun p hp => ?_⟩
      · rw [hpart, hpart']
        exact Sum.forall.mpr ⟨size_eq_iff.mp hsize, fun _ => rfl⟩
      · rw [hpart, hpart']
        exact Sum.forall.mpr
          ⟨fun i v w hv hw => hall hr (v, w) (mem_zip_iff.mpr ⟨i, hv, hw⟩), nofun⟩
      · obtain ⟨i, hv, hw⟩ := mem_zip_iff.mp hp
        exact hab.part (k := .inl i) (hpart ▸ hv) (hpart' ▸ hw)
    · have hplaces := hab.places.2
      rw [hpart, hpart'] at hplaces
      exact size_eq_iff.mpr fun i => hplaces (.inl i)

theorem dictsEqual_decides (hds : m.heap.entries? (.object id) = some ds) :
    (Operation.dictsEqual L (.object id) b m).Answers (·) m (m.heap.Alike (.object id) b)
      (m.heap.Matches m.registers.walking (.object id) b) := by
  obtain ⟨hform, hpart⟩ := of_entries? hds
  rw [Operation.dictsEqual, ask_bind, ask_bind, hds]
  cases hes : m.heap.entries? b with
  | none =>
    exact Outcome.answers_false fun hab => form_ne_dict hes (hab.places.1.symm.trans hform)
  | some es =>
    obtain ⟨hform', hpart'⟩ := of_entries? hes
    rw [hpart, hpart'] at hparts
    refine Operation.comparing_decides (fun hsize hfree => ?_) (fun hab => ?_)
      (fun hab => hab ▸ .refl _)
      fun hin hab => hab.eq_of_walked hin
    · obtain ⟨answer, hdone, hall, hfound⟩ := Operation.entriesEqual_decides fun e he w hw =>
        hparts hfree (.inr e.1) e.2 w (OrderedMap.find?_eq_some_iff.mpr he) hw
      refine ⟨answer, hdone, fun hr => .parts (hform.trans hform'.symm) (by simp [hform]) ?_ ?_,
        fun hab => hfound fun e he => ?_⟩
      · have hperm := keys_perm_of_find? hsize fun e he => (hall hr e he).imp fun _ => And.left
        rw [hpart, hpart']
        exact Sum.forall.mpr ⟨fun _ => rfl, keys_perm_iff.mp hperm⟩
      · rw [hpart, hpart']
        refine Sum.forall.mpr ⟨nofun, fun k v w hv hw => ?_⟩
        obtain ⟨w', hw', halike⟩ := hall hr _ (OrderedMap.mem_of_find? hv)
        cases hw'.symm.trans hw
        exact halike
      · have hv := OrderedMap.find?_eq_some_iff.mpr he
        have hplaces := hab.places.2 (.inr e.1)
        rw [hpart, hpart', Sum.elim_inr, Sum.elim_inr, hv] at hplaces
        obtain ⟨w, hw⟩ := Option.isSome_iff_exists.mp hplaces.symm
        exact ⟨w, hw, hab.part (k := .inr e.1) (hpart ▸ hv) (hpart' ▸ hw)⟩
    · have hplaces := hab.places.2
      rw [hpart, hpart'] at hplaces
      have hperm := keys_perm_iff.mpr fun k => hplaces (.inr k)
      simpa [OrderedMap.keys, OrderedMap.size] using hperm.length_eq

end

end Heap

/-! ## What is no container -/

theorem Numeral.order?_self {x : Numeral} (hx : ∀ y, x = .float y → y.isNaN = false) :
    x.order? x = .ok (some .eq) := by
  cases x with
  | int n =>
    change Except.ok (some (compare n.toInt n.toInt)) = _
    simp
  | float y =>
    change Except.ok (y.compare? y) = _
    simp [Binary64.compare?, hx y rfl]
  | decimal d =>
    change Except.ok (some (d.compare d)) = _
    simp [Decimal.compare]

namespace Heap

variable {a b : Value} {L : Level} {m : Machine} {n : Nat}

theorem Regular.native_self (ha : m.heap.Regular a)
    (hform : m.heap.form a ∉ [.null, .list, .dict]) :
    Operation.native L (m.heap.form a) .eq a [a] m = .done (.bool true) m := by
  have hdone {answer : Bool} (hanswer : answer = true) :
      Outcome.done (Value.bool answer) m = .done (.bool true) m := by rw [hanswer]
  have hnumber {x : Numeral} (hx : Numeral.of? a = some x)
      (hfloat : ∀ y, x = .float y → y.isNaN = false) :
      Operation.number .eq a [a] m = .done (.bool true) m := by
    change (Operation.numberEqual a a >>= fun answer => pure (Value.bool answer)) m = _
    rw [Operation.numberEqual, Operation.numberOrder, hx]
    dsimp only
    rw [Numeral.order?_self hfloat]
    rfl
  cases a with
  | null => simp [form] at hform
  | bool | str | type => exact hdone (beq_self_eq_true _)
  | int | decimal => exact hnumber rfl nofun
  | float y => exact hnumber rfl fun y' hy => by cases hy; exact ha.number y rfl
  | function => exact hdone (by simp [Operation.sameFunction])
  | object id =>
    rw [form] at hform ⊢
    cases hp : m.heap.payloadOf id with
    | list | dict => simp [hp] at hform
    | range | fields | enumerator | host => exact hdone (beq_self_eq_true _)

theorem Basic.native_done (ha : m.heap.Basic a) (hb : m.heap.Basic b)
    (hform : m.heap.form a ∉ [.null, .list, .dict]) :
    ∃ answer, Operation.native L (m.heap.form a) .eq a [b] m = .done (.bool answer) m ∧
      (answer = true → a = b) := by
  cases ha with
  | null => simp [form] at hform
  | bool x => exact ⟨_, rfl, fun h => by cases b <;> simp_all [Value.bool?]⟩
  | str s => exact ⟨_, rfl, fun h => by cases b <;> simp_all [Value.str?]⟩
  | int k =>
    cases hb with
    | int j =>
      refine ⟨some (compare k.toInt j.toInt) == some .eq, rfl, fun h => ?_⟩
      have hsame : k.toInt = j.toInt := by simpa using h
      rw [Int64.toInt_inj.mp hsame]
    | _ => exact ⟨false, rfl, nofun⟩
  | fields hp =>
    rw [form, hp]
    exact ⟨_, rfl, eq_of_beq⟩
  | list hp | dict hp => simp [form, hp] at hform

theorem operate_of_itself (ha : a = .null ∨ m.heap.ComparesItself a) (span : Span) :
    (level (n + 1)).operate .eq a [b] span m =
      if (a.isNull || b.isNull) = true then .done (.bool (a == b)) m
      else Operation.native (level n) (m.heap.form a) .eq a [b] m := by
  change enter (fun _ => false) n (Operation.apply _ .eq a [b] span) m = _
  rw [enter_apply, if_neg Bool.false_ne_true]
  by_cases hnull : (a.isNull || b.isNull) = true
  · rw [if_pos hnull, Operation.apply, Operation.nullEquality, if_pos hnull]
    rfl
  · have hitself := ha.resolve_left fun ha => hnull (ha ▸ rfl)
    rw [if_neg hnull]
    exact Operation.apply_of_family (if_neg hnull) hitself.scripted nofun nofun hitself.family

theorem Compares.operate {new around : List ObjectId} (hplain : m.heap.Plain)
    (hab : m.heap.Compares a b) (hpath : m.heap.Path new)
    (hwalk : m.registers.walking = new ++ around) (hn : m.heap.objects.size + 1 < n + new.length)
    (span : Span) :
    ((level n).operate .eq a [b] span m).Answers .bool m (m.heap.Alike a b)
      (m.heap.Matches m.registers.walking a b) := by
  induction n generalizing m a b new span with
  | zero =>
    obtain ⟨k, hk, _⟩ := hpath.succ hn
    cases hk
  | succ n ih =>
    have hregular := hab.regular hplain
    rw [operate_of_itself (hplain.itself hregular.itself)]
    by_cases hnull : (a.isNull || b.isNull) = true
    · rw [if_pos hnull]
      refine ⟨_, rfl, fun heq => eq_of_beq heq ▸ .refl _,
        fun hm => beq_iff_eq.mpr (hm.eq_of_form ?_)⟩
      have hform : m.heap.form a = .null := by
        rcases Bool.or_eq_true_iff.mp hnull with hnull | hnull
        · cases a <;> cases hnull
          rfl
        · cases b <;> cases hnull
          exact hm.places.1
      simp [hform]
    rw [if_neg hnull]
    have hscalar (hform : m.heap.form a ∉ [.null, .list, .dict]) :
        (Operation.native (level n) (m.heap.form a) .eq a [b] m).Answers .bool m (m.heap.Alike a b)
          (m.heap.Matches m.registers.walking a b) := by
      have hself := hregular.native_self (L := level n) hform
      cases hab with
      | itself => exact ⟨true, hself, fun _ => .refl _, fun _ => rfl⟩
      | basic ha hb =>
        obtain ⟨answer, hdone, heq⟩ := (ha a .refl).native_done (L := level n) (hb b .refl) hform
        refine ⟨answer, hdone, fun h => heq h ▸ .refl _, fun hm => ?_⟩
        cases hm.eq_of_form fun hin => hform (mem_cons_of_mem _ hin)
        cases hdone.symm.trans hself
        rfl
    cases a with
    | null => exact absurd rfl hnull
    | object id =>
      -- The containers on the way are new, and different from each other.
      have hparts (hfree : id ∉ m.registers.walking) (k : Nat ⊕ Value) (v w : Value)
          (hv : m.heap.part? (.object id) k = some v) (hw : m.heap.part? b k = some w) :
          (Operation.equal (level n) v w (m.walk id)).Answers (·) (m.walk id) (m.heap.Alike v w)
            (m.heap.Matches (id :: m.registers.walking) v w) := by
        rw [hwalk] at hfree
        have hk : m.heap.objects.size < n + new.length := by omega
        obtain ⟨hpath, hn⟩ :=
          hpath.part (fun hin => hfree (mem_append_left _ hin)) hk (mem_parts hv)
        obtain ⟨answer, hdone, hspec⟩ := ih (m := m.walk id) hplain (hab.part hv hw) hpath
          (congrArg (id :: ·) hwalk) hn Span.nowhere
        exact ⟨answer, by rw [Operation.equal, bind_of_done hdone]; rfl, hspec⟩
      have hcontainer {x : Eval Bool} (hx : (x m).Answers (·) m (m.heap.Alike (.object id) b)
          (m.heap.Matches m.registers.walking (.object id) b)) :
          ((do return Value.bool (← x) : Eval Value) m).Answers .bool m
            (m.heap.Alike (.object id) b)
            (m.heap.Matches m.registers.walking (.object id) b) :=
        hx.elim fun answer h => ⟨answer, bind_of_done h.1, h.2⟩
      rw [form] at hscalar ⊢
      cases hp : m.heap.payloadOf id with
      | list xs => exact hcontainer (listsEqual_decides hparts (by rw [items?, hp]))
      | dict ds => exact hcontainer (dictsEqual_decides hparts (by rw [entries?, hp]))
      | range | fields | enumerator | host => simpa only [hp] using hscalar (by simp [hp])
    | _ => exact hscalar (by simp [form])

/-! ## Values of different kinds -/

/-- Values of different kinds, or different values that are compared by identity. -/
def Unlike (h : Heap) (a b : Value) : Prop :=
  h.form a ≠ h.form b ∨ h.form a = .object ∧ a ≠ b

theorem Unlike.ne {h : Heap} (hab : h.Unlike a b) : a ≠ b := by
  rintro rfl
  exact hab.elim (· rfl) (·.2 rfl)

theorem Unlike.native_done (hab : m.heap.Unlike a b) (ha : a ≠ .null) :
    Operation.native L (m.heap.form a) .eq a [b] m = .done (.bool false) m := by
  have hdone {answer : Bool} (hanswer : answer = false) :
      Outcome.done (Value.bool answer) m = .done (.bool false) m := by rw [hanswer]
  have hidentity := hdone (beq_false_of_ne hab.ne)
  have hform (hobject : m.heap.form a ≠ .object) : m.heap.form b ≠ m.heap.form a :=
    hab.elim Ne.symm fun h => absurd h.1 hobject
  cases a with
  | null => exact absurd rfl ha
  | type => exact hidentity
  | object id =>
    rw [form] at hform ⊢
    cases hp : m.heap.payloadOf id with
    | list =>
      have hb : m.heap.items? b = none := Option.eq_none_iff_forall_ne_some.mpr fun ys hys =>
        hform (by simp [hp]) (by rw [hp, (of_items? hys).1])
      refine bind_of_done (x := Operation.listsEqual L (.object id) b) ?_
      rw [Operation.listsEqual, ask_bind, ask_bind, hb]
      cases m.heap.items? (.object id) <;> rfl
    | dict =>
      have hb : m.heap.entries? b = none := Option.eq_none_iff_forall_ne_some.mpr fun es hes =>
        hform (by simp [hp]) (by rw [hp, (of_entries? hes).1])
      refine bind_of_done (x := Operation.dictsEqual L (.object id) b) ?_
      rw [Operation.dictsEqual, ask_bind, ask_bind, hb]
      cases m.heap.entries? (.object id) <;> rfl
    | range r =>
      refine hdone (beq_false_of_ne (?_ : m.heap.range? (.object id) ≠ m.heap.range? b))
      rw [range?, hp]
      intro hr
      refine hform (by simp [hp]) ?_
      unfold range? at hr
      unfold form
      grind
    | fields | enumerator | host => exact hidentity
  | _ =>
    have hb := hform nofun
    cases b <;> first | rfl | exact absurd rfl hb

end Heap

/-! ## At any time of a session -/

theorem World.own_equality : ∀ e ∈ [(ClassId.int, OperatorFamily.number), (ClassId.float, .number),
    (ClassId.decimal, .number), (ClassId.bool, .bool), (ClassId.str, .str), (ClassId.list, .list),
    (ClassId.dict, .dict), (ClassId.function, .function), (ClassId.type, .object)],
    (heap.2.classAt e.1).operators.find? .eq = some e.2 := by
  decide +kernel

namespace InSession

open Machine

variable {m₀ m : Machine} {a b v w : Value} {n : Nat}

theorem itself_of_type (hm : InSession m₀) (hrun : m₀.Runs m)
    (hplain : ClassId.IsPlain (m.heap.typeOf v)) (hown : (World.heap.2.classAt
      (m.heap.typeOf v)).operators.find? .eq = some (m.heap.form v)) : m.heap.ComparesItself v := by
  refine ⟨hm.scripted_plain hrun hplain .eq 1, ?_⟩
  rw [hm.operators_plain hrun hplain]
  exact hown

/-- Lists and dicts are of their built-in classes, and instances of ordinary classes have taken over
    identity. -/
theorem plain (hm : InSession m₀) (hrun : m₀.Runs m) : m.heap.Plain := by
  intro v hv
  refine or_iff_not_imp_left.mpr fun hnull => ?_
  have hscalar (hv : ∀ id, v ≠ .object id) := hm.itself_of_type hrun (m.heap.typeOf_isPlain hv)
  cases v with
  | null => exact absurd rfl hnull
  | object id =>
    cases hv id rfl with
    | fields hp hclass hscript =>
      refine ⟨hscript, ?_⟩
      rw [Heap.form, hp]
      exact (hm.equated hrun).identity (hrun.steady hm.steady).owned.heap hclass
    | list hp =>
      have htype := (hm.formed hrun).typeOf_eq (c := ClassId.list) hp nofun
        fun _ h => by cases h; rfl
      refine hm.itself_of_type hrun (htype ▸ ⟨by decide, by decide⟩) ?_
      rw [htype, Heap.form, hp]
      exact World.own_equality (_, _) (by decide)
    | dict hp =>
      have htype := (hm.formed hrun).typeOf_eq (c := ClassId.dict) hp nofun
        fun _ h => by cases h; rfl
      refine hm.itself_of_type hrun (htype ▸ ⟨by decide, by decide⟩) ?_
      rw [htype, Heap.form, hp]
      exact World.own_equality (_, _) (by decide)
  | _ => exact hscalar nofun (World.own_equality (_, _) (by decide))

end InSession

/-! ## Data that is compared while a list is being printed -/

namespace Heap

variable {h : Heap} {v w : Value} {vs : List Value}

theorem Comprises.mem (hclosed : ∀ u ∈ vs, ∀ w ∈ h.parts u, w ∈ vs) (hv : v ∈ vs)
    (hw : h.Comprises v w) : w ∈ vs := by
  induction hw with
  | refl => exact hv
  | tail _ hpart ih => exact hclosed _ ih _ (mem_parts hpart.choose_spec)

theorem Acyclic.of_idxOf (hlater : ∀ u ∈ vs, ∀ w ∈ h.parts u, w ∈ vs ∧ vs.idxOf u < vs.idxOf w)
    (hv : v ∈ vs) : h.Acyclic v := by
  induction hk : vs.length - vs.idxOf v using Nat.strongRecOn generalizing v with
  | _ k ih =>
    refine .intro _ fun w ⟨place, hw⟩ => ?_
    obtain ⟨hin, hlt⟩ := hlater v hv w (mem_parts hw)
    have hw' := idxOf_lt_length_of_mem hin
    exact ih _ (by omega) hin rfl

end Heap

namespace Machine

/-- Two lists with one instance in both, dicts with their keys in different order, and lists that
    are inside themselves. -/
def comparing (watch : Machine → Bool) : Machine :=
  ((Request.source ("class T \x7bfn ToString() \x7breturn \"\";\x7d\x7d var t = T();" ++
      "var a = [t, \x7b1: true, 2: null\x7d]; var b = [t, \x7b2: null, 1: true\x7d];" ++
      "var c = [a]; c[0] = c; var d = [c]; print([t]);")).perform (watchedLevel watch 40)
    (Machine.initial Config.standard default [])).machine

/-- The machine in the function that the printing of a list calls. -/
def printing : Machine :=
  comparing fun m => !m.registers.walking.isEmpty && 0 < m.registers.depth

def printed : Machine :=
  comparing fun _ => false

theorem comparing_inSession (watch : Machine → Bool) : InSession (comparing watch) :=
  .running (.initial Config.standard default []) watch 40 _

def acyclicData : List Value :=
  [.object 2, .object 4, .object 1, .object 3, .object 0, .null, .bool true, .int 1, .int 2]

def cyclicData : List Value :=
  [.object 6, .object 5]

def HoldsData (m : Machine) : Prop :=
  m.heap.objects.size + 1 < 20 ∧
  (∀ v ∈ acyclicData, ∀ w ∈ m.heap.parts v,
    w ∈ acyclicData ∧ acyclicData.idxOf v < acyclicData.idxOf w) ∧
  (∀ v ∈ cyclicData, ∀ w ∈ m.heap.parts v, w ∈ cyclicData) ∧
  (∀ v ∈ cyclicData ++ acyclicData, ((m.heap.items? v).isSome ∨ (m.heap.entries? v).isSome) ∨
    v ∈ [.object 0, .null, .bool true, .int 1, .int 2]) ∧
  (m.heap.fieldScope? (.object 0)).isSome ∧ m.heap.scripted (.object 0) .eq 1 = [] ∧
  m.heap.typeOf (.object 0) = 50 ∧ m.heap.InOrderUpTo 50 ∧
  m.heap.inherits 50 ClassId.object = true ∧
  ∀ e, e < World.heap.2.classes.size → m.heap.inherits 50 e = true → e = ClassId.object

instance (m : Machine) : Decidable m.HoldsData := by
  unfold HoldsData
  infer_instance

theorem HoldsData.comparable {m : Machine} (hdata : m.HoldsData) (hm : InSession m) {v : Value}
    (hv : v ∈ cyclicData ++ acyclicData) : m.heap.Comparable v := by
  obtain ⟨-, hlater, hclosed, hkinds, hfields, hscript, htype, horder, hbelow, honly⟩ := hdata
  have ho := hm.steady.owned.heap
  have hclass : m.heap.Ordinary (m.heap.typeOf (.object 0)) := by
    rw [htype]
    exact ⟨horder.inOrder ho, (Heap.inherits_iff ho).mp hbelow,
      fun e he hworld => honly e hworld ((Heap.inherits_iff ho).mpr he)⟩
  have hall : ∀ u ∈ cyclicData ++ acyclicData, ∀ w ∈ m.heap.parts u,
      w ∈ cyclicData ++ acyclicData := forall_mem_append.mpr
    ⟨fun u hu w hw => mem_append_left _ (hclosed u hu w hw),
      fun u hu w hw => mem_append_right _ (hlater u hu w hw).1⟩
  have hinstance : m.heap.Basic (.object 0) := by
    cases hp : m.heap.payloadOf 0 with
    | fields => exact .fields hp hclass hscript
    | _ => simp [Heap.fieldScope?, hp] at hfields
  intro w hw
  rcases hkinds w (hw.mem hall hv) with hcontainer | hother
  · exact .of_container hcontainer
  · simp only [mem_cons, not_mem_nil, or_false] at hother
    rcases hother with rfl | rfl | rfl | rfl | rfl
    · exact hinstance
    all_goals constructor

theorem HoldsData.acyclic {m : Machine} (hdata : m.HoldsData) : m.heap.Acyclic (.object 2) :=
  .of_idxOf hdata.2.1 (by decide)

theorem HoldsData.size {m : Machine} (hdata : m.HoldsData) : m.heap.objects.size + 1 < 20 :=
  hdata.1

theorem printing_data :
    (printing.registers.walking = [7] ∧ printing.HoldsData) ∧
      printing.heap.form (.object 2) ≠ printing.heap.form (.int 1) ∧
      ((level 20).operate .eq (.object 2) [.object 4] default printing).endsIn
        (fun v _ => v == .bool true) ∧
      ((level 20).operate .eq (.object 2) [.object 6] default printing).endsIn
        (fun v _ => v == .bool false) := by
  decide +kernel

theorem printed_data : printed.registers.walking = [] ∧ printed.HoldsData := by
  decide +kernel

end Machine

namespace InSession

open Machine

variable {m₀ m : Machine} {a b v w : Value} {n : Nat}

/-- Values in which all objects have the equality for what they are made of are equal to
    themselves, and differ from values of other kinds. -/
theorem equality_sane (hm : InSession m₀) (hrun : m₀.Runs m)
    (hv : ∀ id, m.heap.Comprises v (.object id) → m.heap.ComparesItself (.object id))
    (hn : m.heap.objects.size + 1 < n) (span : Span) :
    ((∀ x, m.heap.Comprises v (.float x) → x.isNaN = false) →
      (level n).operate .eq v [v] span m = .done (.bool true) m) ∧
    ∀ w, m.heap.Unlike v w → (level n).operate .eq v [w] span m = .done (.bool false) m := by
  have hplain := hm.plain hrun
  refine ⟨fun hnumbers => ?_, fun w hw => ?_⟩
  · have hregular : m.heap.Throughout m.heap.Regular v := fun w hw =>
      ⟨fun id hid => hid ▸ hv id (hid ▸ hw), fun x hx => hnumbers x (hx ▸ hw)⟩
    obtain ⟨answer, hdone, -, htrue⟩ :=
      (Heap.Compares.itself hregular).operate hplain .nil (nil_append _).symm hn span
    rw [hdone, htrue .itself]
  · obtain ⟨k, rfl⟩ : ∃ k, n = k + 1 := ⟨n - 1, by omega⟩
    rw [Heap.operate_of_itself (hplain.itself fun id hid => hid ▸ hv id (hid ▸ .refl))]
    split
    · rw [beq_false_of_ne hw.ne]
    · next hnull => exact hw.native_done fun hv => hnull (hv ▸ rfl)

theorem equality_sane_printing :
    (level 20).operate .eq (.object 2) [.object 2] default printing = .done (.bool true) printing ∧
      (level 20).operate .eq (.object 2) [.int 1] default printing =
        .done (.bool false) printing := by
  have hm : InSession printing := comparing_inSession _
  obtain ⟨⟨-, hdata⟩, hunlike, -⟩ := printing_data
  have hbasic (w : Value) (hw : printing.heap.Comprises (.object 2) w) :=
    hdata.comparable hm (by decide) w hw
  have hsane := equality_sane hm .refl
    (fun id hid => (hm.plain .refl _ fun _ _ => hbasic _ hid).resolve_left nofun)
    hdata.size default
  refine ⟨hsane.1 fun x hx => ?_, hsane.2 _ (.inl hunlike)⟩
  cases hbasic _ hx

theorem subclass_equals_other :
    ((Request.source "class S : str \x7b\x7d print(S() == 5);").perform (level 60)
      (Machine.initial Config.standard default [])).machine.output = "true" := by
  decide +kernel

/-- At any time of a session, data is equal exactly if it has the same structure, unless the first
    operand is inside itself or holds what is being walked. -/
theorem equality_structural (hm : InSession m₀) (hrun : m₀.Runs m) (ha : m.heap.Comparable a)
    (hb : m.heap.Comparable b) (hacyclic : m.heap.Acyclic a)
    (hfree : ∀ id ∈ m.registers.walking, ¬ m.heap.Comprises a (.object id))
    (hn : m.heap.objects.size + 1 < n) (span : Span) :
    ∃ answer, (level n).operate .eq a [b] span m = .done (.bool answer) m ∧
      (answer = true ↔ m.heap.Alike a b) := by
  obtain ⟨answer, hdone, halike, htrue⟩ :=
    (Heap.Compares.basic ha hb).operate (hm.plain hrun) .nil (nil_append _).symm hn span
  exact ⟨answer, hdone, halike, fun hab => htrue (.alike hab hacyclic hfree)⟩

theorem equality_structural_printing :
    printing.registers.walking = [7] ∧
      (level 20).operate .eq (.object 2) [.object 4] default printing =
        .done (.bool true) printing ∧ printing.heap.Alike (.object 2) (.object 4) ∧
      (level 20).operate .eq (.object 2) [.object 6] default printing =
        .done (.bool false) printing ∧ ¬ printing.heap.Alike (.object 2) (.object 6) := by
  have hm : InSession printing := comparing_inSession _
  obtain ⟨⟨hwalking, hdata⟩, -, hends⟩ := printing_data
  have hfree (id : ObjectId) (hid : id ∈ printing.registers.walking) :
      ¬ printing.heap.Comprises (.object 2) (.object id) := by
    intro hw
    rw [hwalking] at hid
    cases mem_singleton.mp hid
    exact absurd (hw.mem (fun u hu w hw => (hdata.2.1 u hu w hw).1) (by decide)) (by decide)
  have hequal {b : Value} (hb : b ∈ cyclicData ++ acyclicData) :=
    equality_structural hm .refl (hdata.comparable hm (v := .object 2) (by decide))
      (hdata.comparable hm hb) hdata.acyclic hfree hdata.size default
  obtain ⟨same, hsame, halike⟩ := hequal (b := .object 4) (by decide)
  obtain ⟨other, hother, hunlike⟩ := hequal (b := .object 6) (by decide)
  rw [hsame, hother] at hends
  obtain ⟨rfl, rfl⟩ : same = true ∧ other = false := by simpa [Outcome.endsIn] using hends
  exact ⟨hwalking, hsame, halike.mp rfl, hother, fun h => absurd (hunlike.mpr h) nofun⟩

/-- A list that is being printed differs from one with the same item, and the instances of a class
    that was declared in the body of its super class have no equality. -/
theorem walked_list_differs :
    ((Request.source ("var xs = []; var ys = []; class T \x7b fn ToString() \x7b " ++
        "if (xs == ys) \x7b return \"equal\"; \x7d return \"different\"; \x7d \x7d " ++
        "var t = T(); xs.Add(t); ys.Add(t); print(xs);")).perform (level 60)
      (Machine.initial Config.standard default [])).machine.output = "[different]" ∧
    ((Request.source ("class A \x7b class B : A \x7b\x7d \x7d var x = A.B(); " ++
        "try \x7b print([x] == [x]); \x7d catch (e) \x7b print(\"fails\"); \x7d")).perform
      (level 60) (Machine.initial Config.standard default [])).machine.output = "fails" := by
  decide +kernel

/-- Comparing data comes to an end, whether or not it is inside itself. The order of the operands
    makes no difference if one of them is not inside itself. -/
theorem equality_symmetric (hm : InSession m₀) (hrun : m₀.Runs m) (ha : m.heap.Comparable a)
    (hb : m.heap.Comparable b) (hidle : m.registers.walking = [])
    (hn : m.heap.objects.size + 1 < n) (span : Span) :
    ∃ left right, (level n).operate .eq a [b] span m = .done (.bool left) m ∧
      (level n).operate .eq b [a] span m = .done (.bool right) m ∧
      (m.heap.Acyclic a ∨ m.heap.Acyclic b → left = right) := by
  have hplain := hm.plain hrun
  obtain ⟨left, hleft, hab, htrue⟩ :=
    (Heap.Compares.basic ha hb).operate hplain .nil (nil_append _).symm hn span
  obtain ⟨right, hright, hba, htrue'⟩ :=
    (Heap.Compares.basic hb ha).operate hplain .nil (nil_append _).symm hn span
  rw [hidle] at htrue htrue'
  refine ⟨left, right, hleft, hright,
    fun hacyclic => Bool.eq_iff_iff.mpr ⟨fun h => ?_, fun h => ?_⟩⟩
  · exact htrue' (.alike (hab h).symm (hacyclic.elim (hab h).acyclic id) nofun)
  · exact htrue (.alike (hba h).symm (hacyclic.elim id (hba h).acyclic) nofun)

theorem equality_symmetric_printed :
    (∃ left right,
      (level 20).operate .eq (.object 5) [.object 6] default printed = .done (.bool left) printed ∧
      (level 20).operate .eq (.object 6) [.object 5] default printed =
        .done (.bool right) printed) ∧
    ∃ answer,
      (level 20).operate .eq (.object 2) [.object 5] default printed =
        .done (.bool answer) printed ∧
      (level 20).operate .eq (.object 5) [.object 2] default printed =
        .done (.bool answer) printed := by
  have hm : InSession printed := comparing_inSession _
  obtain ⟨hidle, hdata⟩ := printed_data
  have hboth {a b : Value} (ha : a ∈ cyclicData ++ acyclicData)
      (hb : b ∈ cyclicData ++ acyclicData) :=
    equality_symmetric hm .refl (hdata.comparable hm ha) (hdata.comparable hm hb) hidle hdata.size
      default
  obtain ⟨left, right, hleft, hright, -⟩ :=
    hboth (a := .object 5) (b := .object 6) (by decide) (by decide)
  obtain ⟨answer, answer', hab, hba, hsame⟩ :=
    hboth (a := .object 2) (b := .object 5) (by decide) (by decide)
  cases hsame (.inl hdata.acyclic)
  exact ⟨⟨left, right, hleft, hright⟩, answer, hab, hba⟩

theorem cyclic_not_symmetric :
    ((Request.source ("var c = [1]; c[0] = c; var d = [c]; var b = [d]; " ++
        "print(b == c, c == b);")).perform (level 60)
      (Machine.initial Config.standard default [])).machine.output = "true false" := by
  decide +kernel

end InSession

end ClassScript
