import ClassScript.Proofs.Json5.RoundTrip
import ClassScript.Proofs.Printing

/-!
# Containers Inside Themselves

The writer has to refuse every structure that holds itself, and must not refuse a container that
merely occurs in several places. It gets to an end because the containers around a value are
different objects of the heap.
-/

namespace ClassScript

open List Heap
open Eval hiding pure

open Relation

namespace Heap

def contents (h : Heap) : Value → List Value
  | .object id =>
    match h.payloadOf id with
    | .list items => items.toList
    | .dict entries => entries.values
    | .fields scope => (Writing.publicFields h scope).map (·.2)
    | _ => []
  | _ => []

def Holds (h : Heap) (v w : Value) : Prop :=
  w ∈ h.contents v

instance (h : Heap) (v w : Value) : Decidable (h.Holds v w) :=
  inferInstanceAs (Decidable (w ∈ h.contents v))

/-- Scalars, lists, and dicts with texts as keys. -/
inductive Writable (h : Heap) : Value → Prop
  | null : Writable h .null
  | bool (b : Bool) : Writable h (.bool b)
  | int (n : Int64) : Writable h (.int n)
  | str (s : String) : Writable h (.str s)
  | list {id : ObjectId} {items : Array Value} (hp : h.payloadOf id = .list items) :
      Writable h (.object id)
  | dict {id : ObjectId} {entries : Entries} (hp : h.payloadOf id = .dict entries)
      (hkeys : ∀ e ∈ entries.entries, ∃ key, e.1 = .str key) : Writable h (.object id)
  | «instance» {id : ObjectId} {scope : ScopeId} (hp : h.payloadOf id = .fields scope)
      (hfields : Writing.openProperties h (h.objectAt id).type = []) : Writable h (.object id)

def Recurs (h : Heap) (outer : List ObjectId) (v : Value) : Prop :=
  ∃ w, ReflTransGen h.Holds v w ∧ ((∃ id ∈ outer, w = .object id) ∨ TransGen h.Holds w w)

variable {h : Heap} {outer : List ObjectId} {id : ObjectId} {v w : Value}

theorem lt_size_of_holds (hw : h.Holds (.object id) w) : id < h.objects.size := by
  by_contra hid
  rw [Holds, contents, payloadOf_of_size_le (Nat.not_lt.mp hid)] at hw
  cases hw

theorem mem_of_holds (vs : List Value) (hvs : ∀ u ∈ vs, h.contents u ⊆ vs)
    (hv : h.contents v ⊆ vs) (hw : TransGen h.Holds v w) : w ∈ vs := by
  induction hw with
  | single hholds => exact hv hholds
  | tail _ hholds ih => exact hvs _ ih hholds

theorem recurs_again (hid : id ∈ outer) : h.Recurs outer (.object id) :=
  ⟨_, .refl, .inl ⟨id, hid, rfl⟩⟩

theorem recurs_iff (hid : id ∉ outer) :
    h.Recurs outer (.object id) ↔ ∃ w ∈ h.contents (.object id), h.Recurs (id :: outer) w := by
  constructor
  · rintro ⟨u, hu, hends⟩
    rcases ReflTransGen.cases_head hu with rfl | ⟨w, hw, hwu⟩
    · -- The container is not around itself, so it is inside itself.
      rcases hends with ⟨o, ho, heq⟩ | hcycle
      · cases heq
        exact absurd ho hid
      · obtain ⟨w, hw, hback⟩ := TransGen.head'_iff.mp hcycle
        exact ⟨w, hw, _, hback, .inl ⟨id, mem_cons_self, rfl⟩⟩
    · refine ⟨w, hw, u, hwu, hends.imp_left ?_⟩
      rintro ⟨o, ho, rfl⟩
      exact ⟨o, mem_cons_of_mem _ ho, rfl⟩
  · rintro ⟨w, hw, u, hwu, ⟨o, ho, rfl⟩ | hcycle⟩
    · rcases mem_cons.mp ho with rfl | ho
      · exact ⟨_, .refl, .inr (.head' hw hwu)⟩
      · exact ⟨_, .head hw hwu, .inl ⟨o, ho, rfl⟩⟩
    · exact ⟨u, .head hw hwu, .inr hcycle⟩

theorem not_recurs (hv : ∀ id, v ≠ .object id) : ¬ h.Recurs outer v := by
  have hempty : h.contents v = [] := by
    cases v with
    | object id => exact absurd rfl (hv id)
    | _ => rfl
  have hnothing (w : Value) : ¬ h.Holds v w := by
    rw [Holds, hempty]
    exact not_mem_nil
  rintro ⟨w, hw, hends⟩
  rcases ReflTransGen.cases_head hw with rfl | ⟨u, hu, _⟩
  · rcases hends with ⟨id, _, hid⟩ | hcycle
    · exact hv id hid
    · obtain ⟨u, hu, _⟩ := TransGen.head'_iff.mp hcycle
      exact hnothing u hu
  · exact hnothing u hu

theorem recurs_nil : h.Recurs [] v ↔ ∃ w, ReflTransGen h.Holds v w ∧ TransGen h.Holds w w := by
  constructor
  · rintro ⟨w, hw, ⟨id, hid, _⟩ | hcycle⟩
    · cases hid
    · exact ⟨w, hw, hcycle⟩
  · rintro ⟨w, hw, hcycle⟩
    exact ⟨w, hw, .inr hcycle⟩

end Heap

/-- A computation that refuses a circular reference if something is the case, and otherwise has a
    value. -/
inductive Outcome.Decides {α : Type} (m : Machine) (refuses : Prop) : Outcome α → Prop
  | done (a : α) (hno : ¬ refuses) : Decides m refuses (.done a m)
  | failed (name : String) (hyes : refuses) :
      Decides m refuses (.failed (.fault (.circularReference name) none []) m)

namespace Outcome.Decides

variable {α β : Type} {m : Machine} {p q : Prop} {x : Outcome α}

theorem congr (hx : x.Decides m p) (hpq : p ↔ q) : x.Decides m q := by
  cases hx with
  | done a hno => exact .done a (mt hpq.mpr hno)
  | failed name hyes => exact .failed name (hpq.mp hyes)

theorem map {x : Eval α} (hx : (x m).Decides m p) (f : α → β) :
    ((x >>= fun a => pure (f a) : Eval β) m).Decides m p := by
  rw [Eval.bind_apply]
  generalize x m = result at hx
  cases hx with
  | done a hno => exact .done (f a) hno
  | failed name hyes => exact .failed name hyes

theorem exists_done (hx : x.Decides m p) (hno : ¬ p) : ∃ a, x = .done a m := by
  cases hx with
  | done a _ => exact ⟨a, rfl⟩
  | failed _ hyes => exact absurd hyes hno

theorem exists_failed (hx : x.Decides m p) (hyes : p) :
    ∃ name, x = .failed (.fault (.circularReference name) none []) m := by
  cases hx with
  | done _ hno => exact absurd hyes hno
  | failed name _ => exact ⟨name, rfl⟩

theorem mapList {f : α → Eval β} {refuses : α → Prop} {as : List α}
    (hf : ∀ a ∈ as, (f a m).Decides m (refuses a)) :
    (Eval.mapList f as m).Decides m (∃ a ∈ as, refuses a) := by
  have honto (found : List β) : (Eval.mapOnto f as found m).Decides m (∃ a ∈ as, refuses a) := by
    induction as generalizing found with
    | nil => exact .done _ nofun
    | cons a as ih =>
      obtain ⟨ha, has⟩ := forall_mem_cons.mp hf
      rw [Eval.mapOnto]
      generalize f a m = x at ha
      cases ha with
      | done b hno =>
        refine (ih has (b :: found)).congr ?_
        grind
      | failed name hyes => exact .failed name ⟨a, mem_cons_self, hyes⟩
  exact honto []

end Outcome.Decides

namespace Writing

variable {m : Machine} {outer : List ObjectId} {id : ObjectId} {v : Value} {n : Nat} {L : Level}

theorem container_decides {p : Prop} {x : List ObjectId → Eval String}
    (hagain : id ∈ outer → p) (hx : id ∉ outer → (x (id :: outer) m).Decides m p) :
    (container id outer x m).Decides m p := by
  unfold container
  by_cases hid : id ∈ outer
  · rw [if_pos (contains_iff_mem.mpr hid)]
    exact .failed _ (hagain hid)
  · simp_all

theorem object_decides {refuses : Value → Prop} {entries : List (String × Value)}
    (hv : ∀ e ∈ entries, (L.serialize outer e.2 m).Decides m (refuses e.2)) :
    (object L outer entries m).Decides m (∃ w ∈ entries.map (·.2), refuses w) := by
  have hentry : ∀ e ∈ entries, (entry L outer e m).Decides m (refuses e.2) := fun e he =>
    (hv e he).map (Json.quote e.1 ++ ":" ++ ·)
  refine ((Outcome.Decides.mapList hentry).map Json.objectText).congr ?_
  grind

theorem textEntries_of_texts {entries : List (Value × Value)}
    (hkeys : ∀ e ∈ entries, ∃ key, e.1 = .str key) :
    ∃ named, textEntries entries m = .done named m ∧
      named.map (·.2) = entries.map (·.2) := by
  induction entries with
  | nil => exact ⟨[], rfl, rfl⟩
  | cons e entries ih =>
    obtain ⟨⟨key, hkey⟩, hrest⟩ := forall_mem_cons.mp hkeys
    obtain ⟨named, hnamed, hvalues⟩ := ih hrest
    obtain ⟨k, v⟩ := e
    cases hkey
    refine ⟨(key, v) :: named, ?_, congrArg (v :: ·) hvalues⟩
    rw [textEntries, bind_of_done hnamed]
    rfl

theorem members_of_fields (scope : ScopeId)
    (hfields : openProperties m.heap (m.heap.objectAt id).type = []) :
    members L id scope m = .done (publicFields m.heap scope) m := by
  unfold members
  rw [ask_bind, ask_bind, hfields]
  exact congrArg (Outcome.done · m) (append_nil _)

theorem writeObject_decides (hv : m.heap.Writable (.object id))
    (hinside : id ∉ outer → ∀ w ∈ m.heap.contents (.object id),
      (L.serialize (id :: outer) w m).Decides m (m.heap.Recurs (id :: outer) w)) :
    (writeObject L outer id m).Decides m (m.heap.Recurs outer (.object id)) := by
  unfold writeObject
  rw [ask_bind]
  cases hv with
  | list hp =>
    rw [hp]
    refine container_decides recurs_again fun hid => ?_
    have hitems := Outcome.Decides.mapList (hinside hid)
    rw [Heap.contents, hp] at hitems
    refine (hitems.map Json.arrayText).congr ?_
    rw [recurs_iff hid, Heap.contents, hp]
  | @dict _ entries hp hkeys =>
    rw [hp]
    refine container_decides recurs_again fun hid => ?_
    obtain ⟨named, hnamed, hvalues⟩ := textEntries_of_texts (m := m) hkeys
    have hcontents : m.heap.contents (.object id) = named.map (·.2) := by
      rw [Heap.contents, hp, hvalues]
      rfl
    rw [bind_of_done hnamed, recurs_iff hid, hcontents]
    rw [hcontents] at hinside
    exact object_decides fun e he => hinside hid e.2 (mem_map_of_mem he)
  | @«instance» _ scope hp hfields =>
    rw [hp]
    refine container_decides recurs_again fun hid => ?_
    have hcontents : m.heap.contents (.object id) = (publicFields m.heap scope).map (·.2) := by
      rw [Heap.contents, hp]
    rw [bind_of_done (members_of_fields scope hfields), recurs_iff hid, hcontents]
    rw [hcontents] at hinside
    exact object_decides fun e he => hinside hid e.2 (mem_map_of_mem he)

theorem level_serialize_decides
    (hv : ∀ w, ReflTransGen m.heap.Holds v w → m.heap.Writable w) (hpath : m.heap.Path outer)
    (hn : m.heap.objects.size + 1 < n + outer.length) :
    ((level n).serialize outer v m).Decides m (m.heap.Recurs outer v) := by
  induction n generalizing outer v with
  | zero =>
    obtain ⟨k, hk, _⟩ := hpath.succ hn
    cases hk
  | succ n ih =>
    rw [level_serialize]
    have hwritable := hv v .refl
    cases hwritable with
    | null | bool | int | str => exact .done _ (not_recurs nofun)
    | @list id | @dict id | @«instance» id =>
      refine writeObject_decides (hv _ .refl) fun hid w hw => ?_
      have hlt : id < m.heap.objects.size := lt_size_of_holds hw
      refine ih (fun u hu => hv u (.head hw hu)) (hpath.cons hid hlt) ?_
      rw [length_cons]
      omega

end Writing

namespace Library

/-- Writing comes to an end on every heap and changes nothing. It fails exactly if the value leads
    to a container inside itself. -/
theorem json_serialize_decides {m : Machine} {v : Value}
    (hv : ∀ w, ReflTransGen m.heap.Holds v w → m.heap.Writable w) {n : Nat}
    (hn : m.heap.objects.size + 1 < n) (receiver : Option Value) :
    (¬ (∃ w, ReflTransGen m.heap.Holds v w ∧ TransGen m.heap.Holds w w) →
      ∃ text, json (level n) .serialize ⟨receiver, [v]⟩ m = .done (.str text) m) ∧
    ((∃ w, ReflTransGen m.heap.Holds v w ∧ TransGen m.heap.Holds w w) →
      ∃ fault, fault.kind = .invalidOperation ∧
        json (level n) .serialize ⟨receiver, [v]⟩ m = .failed (.fault fault none []) m) := by
  have hwrites := Writing.level_serialize_decides hv .nil hn
  rw [← recurs_nil]
  refine ⟨fun hno => ?_, fun hyes => ?_⟩
  · obtain ⟨text, htext⟩ := hwrites.exists_done hno
    refine ⟨text, ?_⟩
    change ((level n).serialize [] v >>= fun s => (pure (.str s) : Eval Value)) m = _
    rw [Eval.bind_apply, htext]
    rfl
  · obtain ⟨name, hname⟩ := hwrites.exists_failed hyes
    refine ⟨.circularReference name, rfl, ?_⟩
    change ((level n).serialize [] v >>= fun s => (pure (.str s) : Eval Value)) m = _
    rw [Eval.bind_apply, hname]

def circularMachine : Machine :=
  let hidden : Variable := { Variable.plain (.object 1) with access := .private }
  let vars (entries : List (String × Variable)) : Scope :=
    { (default : Scope) with vars := .ofList entries }
  let objects : Array Object :=
    #[⟨ClassId.dict, .dict ⟨[(.str "a", .object 1), (.str "b", .object 1)], by simp⟩⟩,
      ⟨ClassId.object, .fields 1⟩, ⟨ClassId.object, .fields 2⟩,
      ⟨ClassId.list, .list #[.null, .object 2]⟩]
  let scopes := #[default, vars [("name", .plain (.str "x")), ("self", hidden)],
    vars [("next", .plain (.object 3))]]
  { (default : Machine) with heap := { Heap.empty with objects, scopes } }

def circularValues : List Value :=
  [.object 0, .object 1, .object 2, .object 3, .str "x", .null]

theorem circularMachine_writable {v : Value} (hv : v ∈ circularValues) (w : Value)
    (hw : ReflTransGen circularMachine.heap.Holds v w) : circularMachine.heap.Writable w := by
  have hclosed : ∀ u ∈ circularValues, circularMachine.heap.contents u ⊆ circularValues := by decide
  have hmem : w ∈ circularValues := by
    rcases reflTransGen_iff_eq_or_transGen.mp hw with rfl | hw
    · exact hv
    · exact mem_of_holds _ hclosed (hclosed v hv) hw
  simp only [circularValues, mem_cons, not_mem_nil, or_false] at hmem
  obtain rfl | rfl | rfl | rfl | rfl | rfl := hmem
  · exact .dict rfl (by simp)
  · exact .instance rfl (by decide)
  · exact .instance rfl (by decide)
  · exact .list rfl
  · exact .str "x"
  · exact .null

theorem json_serialize_decides_circular :
    (∃ text, json topLevel .serialize ⟨none, [.object 0]⟩ circularMachine =
      .done (.str text) circularMachine) ∧
    ∃ fault, fault.kind = .invalidOperation ∧
      json topLevel .serialize ⟨none, [.object 2]⟩ circularMachine =
        .failed (.fault fault none []) circularMachine := by
  have hsize : circularMachine.heap.objects.size + 1 < topNumber := by decide
  constructor
  · refine (json_serialize_decides (circularMachine_writable (by decide)) hsize none).1 ?_
    rintro ⟨w, hw, hcycle⟩
    -- From the dict one gets to the instance and then to a text.
    have hmem : w ∈ [.object 0, .object 1, .str "x"] := by
      rcases reflTransGen_iff_eq_or_transGen.mp hw with rfl | hw
      · exact mem_cons_self
      · exact mem_of_holds _ (by decide) (by decide) hw
    simp only [mem_cons, not_mem_nil, or_false] at hmem
    obtain rfl | rfl | rfl := hmem
    · have hagain := mem_of_holds [.object 1, .str "x"] (by decide) (by decide) hcycle
      revert hagain
      decide
    · have hagain := mem_of_holds [.str "x"] (by decide) (by decide) hcycle
      revert hagain
      decide
    · have hagain := mem_of_holds [] (by decide) (by decide) hcycle
      cases hagain
  · refine (json_serialize_decides (circularMachine_writable (by decide)) hsize none).2 ?_
    have hnext : circularMachine.heap.Holds (.object 2) (.object 3) := by decide
    exact ⟨.object 2, .refl, .head hnext (.single (by decide))⟩

end Library

end ClassScript
