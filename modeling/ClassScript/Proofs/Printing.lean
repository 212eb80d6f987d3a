import ClassScript.Proofs.Linking
import Mathlib.Logic.Relation

/-!
# The Two Printers

Both printers go down into lists and dicts, each with its own record of the containers it is inside
of. What ends the descent is that the containers around a value are different objects of the heap.
So both printers come to an end on every heap, and where no instance is asked they give one text.
-/

namespace ClassScript

open List
open Eval hiding pure

namespace Heap

variable {id : ObjectId} {entries : Entries} {n : Nat} {e : Value × Value}

def parts (h : Heap) : Value → List Value
  | .object id =>
    match h.payloadOf id with
    | .list items => items.toList
    | .dict entries => entries.keys ++ entries.values
    | _ => []
  | _ => []

def Reaches (h : Heap) : Value → Value → Prop :=
  Relation.ReflTransGen fun v w => w ∈ h.parts v

def Uninstanced (h : Heap) (v : Value) : Prop :=
  ∀ id scope, h.Reaches v (.object id) → h.payloadOf id ≠ .fields scope

/-- The text of a value inside the containers that are being printed. -/
inductive Prints (h : Heap) : (outer : List ObjectId) → Value → String → Prop
  | null {outer} : Prints h outer .null "null"
  | bool {outer} (b : Bool) : Prints h outer (.bool b) (if b then "true" else "false")
  | int {outer} (n : Int64) : Prints h outer (.int n) (Word.text n)
  | float {outer} (x : Binary64) : Prints h outer (.float x) x.text
  | decimal {outer} (d : Decimal) : Prints h outer (.decimal d) d.text
  | str {outer} (s : String) : Prints h outer (.str s) s
  | function {outer} (id : CallableId) :
      Prints h outer (.function id) ("<fn " ++ (h.callableAt id).name ++ ">")
  | type {outer} (id : ClassId) :
      Prints h outer (.type id) ("<class " ++ h.className id ++ ">")
  | range {outer} {id : ObjectId} {r : Range} (hp : h.payloadOf id = .range r) :
      Prints h outer (.object id) r.text
  | enumerator {outer} {id : ObjectId} {e : Enumerator} (hp : h.payloadOf id = .enumerator e) :
      Prints h outer (.object id) "<enumerator>"
  | host {outer} {id : ObjectId} {o : HostObject} (hp : h.payloadOf id = .host o) :
      Prints h outer (.object id) (instanceText o.typeName)
  | list {outer} {id : ObjectId} {items : Array Value} (hp : h.payloadOf id = .list items)
      (hfree : id ∉ outer) (text : Value → String)
      (hitems : ∀ v ∈ items.toList, Prints h (id :: outer) v (text v)) :
      Prints h outer (.object id) (listText (items.toList.map text))
  | listAgain {outer} {id : ObjectId} {items : Array Value} (hp : h.payloadOf id = .list items)
      (hinside : id ∈ outer) : Prints h outer (.object id) listPlaceholder
  | dict {outer} {id : ObjectId} {entries : Entries} (hp : h.payloadOf id = .dict entries)
      (hfree : id ∉ outer) (text : Value → String)
      (hkeys : ∀ e ∈ entries.entries, Prints h (id :: outer) e.1 (text e.1))
      (hvalues : ∀ e ∈ entries.entries, Prints h (id :: outer) e.2 (text e.2)) :
      Prints h outer (.object id)
        (dictText (entries.entries.map fun e => text e.1 ++ ": " ++ text e.2))
  | dictAgain {outer} {id : ObjectId} {entries : Entries} (hp : h.payloadOf id = .dict entries)
      (hinside : id ∈ outer) : Prints h outer (.object id) dictPlaceholder

variable {h : Heap} {outer : List ObjectId} {v : Value}

theorem parts_list {items : Array Value} (hp : h.payloadOf id = .list items) :
    h.parts (.object id) = items.toList := by
  rw [parts, hp]

theorem parts_dict (hp : h.payloadOf id = .dict entries) :
    h.parts (.object id) = entries.keys ++ entries.values := by
  rw [parts, hp]

theorem key_mem_parts (hp : h.payloadOf id = .dict entries) (he : e ∈ entries.entries) :
    e.1 ∈ h.parts (.object id) :=
  parts_dict hp ▸ mem_append_left _ (mem_map_of_mem he)

theorem value_mem_parts (hp : h.payloadOf id = .dict entries) (he : e ∈ entries.entries) :
    e.2 ∈ h.parts (.object id) :=
  parts_dict hp ▸ mem_append_right _ (mem_map_of_mem he)

theorem Uninstanced.part {w : Value} (hv : h.Uninstanced v) (hw : w ∈ h.parts v) :
    h.Uninstanced w :=
  fun id scope hreach => hv id scope (.head hw hreach)

theorem Uninstanced.ne_fields (hv : h.Uninstanced (.object id)) (scope : ScopeId) :
    h.payloadOf id ≠ .fields scope :=
  hv id scope .refl

theorem payloadOf_of_size_le (hid : h.objects.size ≤ id) : h.payloadOf id = .host .blank := by
  rw [payloadOf, objectAt, Array.getD, dif_neg (Nat.not_lt.mpr hid)]
  rfl

theorem lt_size_of_part (hv : v ∈ h.parts (.object id)) : id < h.objects.size := by
  by_contra hid
  rw [parts, payloadOf_of_size_le (Nat.not_lt.mp hid)] at hv
  cases hv

/-- Containers that can be around a value: different objects of the heap. -/
structure Path (h : Heap) (outer : List ObjectId) : Prop where
  nodup : outer.Nodup
  exist : ∀ id ∈ outer, id < h.objects.size

theorem Path.nil : h.Path [] := ⟨nodup_nil, nofun⟩

theorem Path.cons (hpath : h.Path outer) (hfree : id ∉ outer)
    (hid : id < h.objects.size) : h.Path (id :: outer) :=
  ⟨nodup_cons.mpr ⟨hfree, hpath.nodup⟩, forall_mem_cons.mpr ⟨hid, hpath.exist⟩⟩

theorem Path.length_le (hpath : h.Path outer) : outer.length ≤ h.objects.size := by
  have hsub : outer ⊆ List.range h.objects.size :=
    fun id hid => mem_range.mpr (hpath.exist id hid)
  have hle := (hpath.nodup.subperm hsub).length_le
  rwa [length_range] at hle

theorem Path.succ (hpath : h.Path outer) (hn : h.objects.size + 1 < n + outer.length) :
    ∃ k, n = k + 1 ∧ h.objects.size < k + outer.length := by
  have hlength := hpath.length_le
  exact ⟨n - 1, by omega, by omega⟩

theorem Path.part {k : Nat} (hpath : h.Path outer) (hfree : id ∉ outer)
    (hk : h.objects.size < k + outer.length) (hv : v ∈ h.parts (.object id)) :
    h.Path (id :: outer) ∧ h.objects.size + 1 < k + (id :: outer).length := by
  refine ⟨hpath.cons hfree (lt_size_of_part hv), ?_⟩
  rw [length_cons]
  omega

theorem Uninstanced.showValue_prints (hv : h.Uninstanced v) (hpath : h.Path outer)
    (hn : h.objects.size + 1 < n + outer.length) :
    h.Prints outer v (h.showValue false n outer v) := by
  induction n generalizing outer v with
  | zero =>
    obtain ⟨k, hk, _⟩ := hpath.succ hn
    cases hk
  | succ n ih =>
    cases v with
    | null => exact .null
    | bool b => exact .bool b
    | int k => exact .int k
    | float x => exact .float x
    | decimal d => exact .decimal d
    | str s => exact .str s
    | function id => exact .function id
    | type id => exact .type id
    | object id =>
      have hk : h.objects.size < n + outer.length := by omega
      have hpart {w : Value} (hfree : id ∉ outer) (hw : w ∈ h.parts (.object id)) :
          h.Prints (id :: outer) w (h.showValue false n (id :: outer) w) :=
        have ⟨hpath, hn⟩ := hpath.part hfree hk hw
        ih (hv.part hw) hpath hn
      rw [showValue]
      cases hp : h.payloadOf id with
      | fields scope => exact absurd hp (hv.ne_fields scope)
      | range => exact .range hp
      | enumerator => exact .enumerator hp
      | host => exact .host hp
      | list =>
        by_cases hin : id ∈ outer
        · simpa [hin] using .listAgain hp hin
        · simp only [contains_iff_mem, hin]
          exact .list hp hin _ fun v hv => hpart hin (parts_list hp ▸ hv)
      | dict =>
        by_cases hin : id ∈ outer
        · simpa [hin] using .dictAgain hp hin
        · simp only [contains_iff_mem, hin]
          exact .dict hp hin _
            (fun e he => hpart hin (key_mem_parts hp he))
            (fun e he => hpart hin (value_mem_parts hp he))

theorem Prints.showValue_eq {text : String} (ht : h.Prints outer v text)
    (hpath : h.Path outer) (hn : h.objects.size + 1 < n + outer.length) :
    h.showValue false n outer v = text := by
  induction ht generalizing n with
  | null | bool | int | float | decimal | str | function | type =>
    obtain ⟨k, rfl, _⟩ := hpath.succ hn
    rfl
  | range hp | enumerator hp | host hp =>
    obtain ⟨k, rfl, _⟩ := hpath.succ hn
    simp [showValue, hp]
  | listAgain hp hinside | dictAgain hp hinside =>
    obtain ⟨k, rfl, _⟩ := hpath.succ hn
    simp [showValue, hp, hinside]
  | @list _ id items hp hfree text _ ih =>
    obtain ⟨k, rfl, hk⟩ := hpath.succ hn
    simp only [showValue, hp, contains_iff_mem, hfree, if_false]
    congr 1
    refine map_congr_left fun v hv => ?_
    obtain ⟨hpath, hn⟩ := hpath.part hfree hk (parts_list hp ▸ hv)
    exact ih v hv hpath hn
  | @dict _ id entries hp hfree text _ _ ihk ihv =>
    obtain ⟨k, rfl, hk⟩ := hpath.succ hn
    simp only [showValue, hp, contains_iff_mem, hfree, if_false]
    congr 1
    refine map_congr_left fun e he => ?_
    obtain ⟨hpath, hn⟩ := hpath.part hfree hk (key_mem_parts hp he)
    rw [ihk e he hpath hn, ihv e he hpath hn]

end Heap

theorem level_stringify (n : Nat) (v : Value) (m : Machine) :
    (level (n + 1)).stringify v m = Printing.stringify (level n) v m := by
  change enter (fun _ => false) n (Printing.stringify (level n) v) m = _
  rw [enter_apply, if_neg Bool.false_ne_true]

section

variable {α β : Type} {f : α → Eval β} {g : α → β} {as : List α} {m : Machine}
  (h : ∀ a ∈ as, f a m = .done (g a) m)
include h

theorem Eval.mapOnto_unchanged (found : List β) :
    Eval.mapOnto f as found m = .done (found.reverse ++ as.map g) m := by
  induction as generalizing found with
  | nil => simp [mapOnto]
  | cons a as ih =>
    obtain ⟨ha, has⟩ := forall_mem_cons.mp h
    rw [mapOnto, ha]
    simp [ih has]

theorem Eval.mapList_unchanged : Eval.mapList f as m = .done (as.map g) m :=
  mapOnto_unchanged h []

end

def Machine.walk (m : Machine) (id : ObjectId) : Machine :=
  { m with registers := m.registers.enterWalk id }

namespace Printing

variable {α : Type} {id : ObjectId} {x : Eval α} {m : Machine} {L : Level} {text : Value → String}

theorem guarded_again (hinside : id ∈ m.registers.walking) : guarded id x m = .done none m := by
  unfold guarded
  rw [read_bind, if_pos (contains_iff_mem.mpr hinside)]
  rfl

theorem guarded_free {a : α} (hfree : id ∉ m.registers.walking)
    (hx : x (m.walk id) = .done a (m.walk id)) : guarded id x m = .done (some a) m := by
  unfold guarded
  rw [read_bind, if_neg (mt contains_iff_mem.mp hfree), bind_of_done
    (bracket_of_done hx)]
  rfl

theorem objectText_list (L : Level) {items : Array Value} (hp : m.heap.payloadOf id = .list items) :
    objectText L id m =
      (guarded id (listBody L items.toList) >>= fun text =>
        (pure (text.getD listPlaceholder) : Eval String)) m := by
  rw [objectText, ask_bind, hp]

theorem objectText_dict (L : Level) {entries : Entries} (hp : m.heap.payloadOf id = .dict entries) :
    objectText L id m =
      (guarded id (dictBody L entries.entries) >>= fun text =>
        (pure (text.getD dictPlaceholder) : Eval String)) m := by
  rw [objectText, ask_bind, hp]

theorem listBody_done {items : List Value} (h : ∀ v ∈ items, L.stringify v m = .done (text v) m) :
    listBody L items m = .done (listText (items.map text)) m := by
  rw [listBody, bind_of_done (mapList_unchanged h)]
  rfl

theorem dictBody_done {entries : List (Value × Value)}
    (hkeys : ∀ e ∈ entries, L.stringify e.1 m = .done (text e.1) m)
    (hvalues : ∀ e ∈ entries, L.stringify e.2 m = .done (text e.2) m) :
    dictBody L entries m =
      .done (dictText (entries.map fun e => text e.1 ++ ": " ++ text e.2)) m := by
  have hentry : ∀ e ∈ entries, entryText L e m = .done (text e.1 ++ ": " ++ text e.2) m := by
    intro e he
    rw [entryText, bind_of_done (hkeys e he), bind_of_done (hvalues e he)]
    rfl
  rw [dictBody, bind_of_done (mapList_unchanged hentry)]
  rfl

end Printing

namespace Heap

variable {outer : List ObjectId} {v : Value}

theorem Prints.level_stringify {m : Machine} {n : Nat} {text : String}
    (ht : m.heap.Prints m.registers.walking v text) (hpath : m.heap.Path m.registers.walking)
    (hn : m.heap.objects.size + 1 < n + m.registers.walking.length) :
    (level n).stringify v m = .done text m := by
  generalize houter : m.registers.walking = outer at ht hpath hn
  generalize hh : m.heap = h at ht hpath hn
  induction ht generalizing n m with
  | null | bool | int | float | decimal | str | function | type =>
    obtain ⟨k, rfl, _⟩ := hpath.succ hn
    subst hh
    exact ClassScript.level_stringify k _ m
  | range hp | enumerator hp | host hp =>
    obtain ⟨k, rfl, _⟩ := hpath.succ hn
    subst hh
    rw [ClassScript.level_stringify, Printing.stringify, Printing.objectText, ask_bind]
    simp [Eval.ask, display, showValue, hp]
  | listAgain hp hinside =>
    obtain ⟨k, rfl, _⟩ := hpath.succ hn
    subst hh houter
    rw [ClassScript.level_stringify, Printing.stringify, Printing.objectText_list _ hp,
      bind_of_done (Printing.guarded_again hinside)]
    rfl
  | dictAgain hp hinside =>
    obtain ⟨k, rfl, _⟩ := hpath.succ hn
    subst hh houter
    rw [ClassScript.level_stringify, Printing.stringify, Printing.objectText_dict _ hp,
      bind_of_done (Printing.guarded_again hinside)]
    rfl
  | @list _ id items hp hfree text _ ih =>
    obtain ⟨k, rfl, hk⟩ := hpath.succ hn
    subst hh houter
    have hitems : ∀ v ∈ items.toList,
        (level k).stringify v (m.walk id) = .done (text v) (m.walk id) := by
      intro v hv
      obtain ⟨hpath, hn⟩ := hpath.part hfree hk (parts_list hp ▸ hv)
      exact ih v hv rfl rfl hpath hn
    rw [ClassScript.level_stringify, Printing.stringify, Printing.objectText_list _ hp,
      bind_of_done (Printing.guarded_free hfree (Printing.listBody_done hitems))]
    rfl
  | @dict _ id entries hp hfree text _ _ ihk ihv =>
    obtain ⟨k, rfl, hk⟩ := hpath.succ hn
    subst hh houter
    have hinside {e : Value × Value} (he : e ∈ entries.entries) :=
      hpath.part hfree hk (key_mem_parts hp he)
    have hkeys : ∀ e ∈ entries.entries,
        (level k).stringify e.1 (m.walk id) = .done (text e.1) (m.walk id) :=
      fun e he => ihk e he rfl rfl (hinside he).1 (hinside he).2
    have hvalues : ∀ e ∈ entries.entries,
        (level k).stringify e.2 (m.walk id) = .done (text e.2) (m.walk id) :=
      fun e he => ihv e he rfl rfl (hinside he).1 (hinside he).2
    rw [ClassScript.level_stringify, Printing.stringify, Printing.objectText_dict _ hp,
      bind_of_done (Printing.guarded_free hfree (Printing.dictBody_done hkeys hvalues))]
    rfl

/-- Printing ends on every heap, and both printers give the same text, in which a container is
    replaced exactly where it is inside itself. -/
theorem Uninstanced.printed {h : Heap} (hv : h.Uninstanced v) :
    ∃ text, (∀ other, h.Prints [] v other ↔ other = text) ∧ h.display v = text ∧
      ∀ (m : Machine) (n : Nat), m.heap = h → m.registers.walking = [] → h.objects.size + 1 < n →
        (level n).stringify v m = .done text m := by
  have htext : h.Prints [] v (h.display v) := hv.showValue_prints .nil (Nat.lt_succ_self _)
  refine ⟨h.display v, fun other => ⟨fun hother => ?_, fun hother => hother ▸ htext⟩, rfl, ?_⟩
  · exact (hother.showValue_eq .nil (Nat.lt_succ_self _)).symm
  · rintro m n rfl hwalking hn
    rw [← hwalking] at htext
    refine htext.level_stringify ?_ ?_
    · rw [hwalking]
      exact .nil
    · rwa [hwalking]

theorem Uninstanced.of_closed {h : Heap} (vs : List Value) (hv : v ∈ vs)
    (hparts : ∀ w ∈ vs, ∀ u ∈ h.parts w, u ∈ vs)
    (hfields : ∀ id, .object id ∈ vs → ∀ scope, h.payloadOf id ≠ .fields scope) :
    h.Uninstanced v := by
  have hreach {w : Value} (hw : h.Reaches v w) : w ∈ vs := by
    induction hw with
    | refl => exact hv
    | tail _ hpart ih => exact hparts _ ih _ hpart
  exact fun id scope hid => hfields id (hreach hid) scope

def knotted : Heap :=
  { empty with objects :=
      #[⟨ClassId.list, .list #[.object 0, .object 1, .object 1]⟩,
        ⟨ClassId.dict, .dict (.ofList [(.str "in", .object 0), (.int 2, .object 2)])⟩,
        ⟨ClassId.list, .list #[.null, .str ""]⟩] }

theorem knotted_printed :
    knotted.Uninstanced (.object 0) ∧ ∃ text,
      text = "[[...], \x7bin: [...], 2: [null, ]\x7d, \x7bin: [...], 2: [null, ]\x7d]" ∧
      (∀ other, knotted.Prints [] (.object 0) other ↔ other = text) ∧
      knotted.display (.object 0) = text ∧
      ∀ (m : Machine) (n : Nat), m.heap = knotted → m.registers.walking = [] →
        knotted.objects.size + 1 < n → (level n).stringify (.object 0) m = .done text m := by
  have hplain : knotted.Uninstanced (.object 0) := by
    refine .of_closed [.object 0, .object 1, .object 2, .str "in", .int 2, .null, .str ""]
      (by decide) (by decide) fun id hid scope => ?_
    have hid : id = 0 ∨ id = 1 ∨ id = 2 := by simpa using hid
    obtain rfl | rfl | rfl := hid <;> exact nofun
  obtain ⟨text, hprints, hdisplay, hrun⟩ := hplain.printed
  refine ⟨hplain, text, ?_, hprints, hdisplay, hrun⟩
  rw [← hdisplay]
  decide

end Heap

end ClassScript
