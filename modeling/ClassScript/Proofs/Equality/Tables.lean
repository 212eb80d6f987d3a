import ClassScript.Proofs.Maturing

/-!
# The Equality That Is Built In

A class that is declared begins with an empty table of operators, and gets those of its super
classes later. So what is true of all tables before a program runs, and of a table made of
others, is true at any time.
-/

namespace ClassScript

open List

variable {h : Heap}

namespace OrderedMap

variable {κ α : Type} [DecidableEq κ]

theorem find?_inserts (k : κ) (es : List (κ × α)) (hes : (es.map Prod.fst).Nodup) :
    ∀ m : OrderedMap κ α,
      (es.foldl (fun m (k, a) => m.insert k a) m).find? k = (findIn k es).or (m.find? k) := by
  induction es with
  | nil => exact fun _ => rfl
  | cons e es ih =>
    intro m
    obtain ⟨hnotin, hrest⟩ := nodup_cons.mp hes
    rw [foldl_cons, ih hrest, find?_insert, findIn]
    by_cases hk : e.1 = k
    · rw [if_pos hk, if_pos hk, findIn_eq_none (hk ▸ hnotin)]
      rfl
    · rw [if_neg hk, if_neg hk]

theorem find?_ofList_flatMap (k : κ) (ts : List (OrderedMap κ α)) :
    (ofList (ts.flatMap entries)).find? k =
      ts.foldl (fun found t => (t.find? k).or found) none := by
  have hfold (ts : List (OrderedMap κ α)) : ∀ m : OrderedMap κ α,
      ((ts.flatMap entries).foldl (fun m (k, a) => m.insert k a) m).find? k =
        ts.foldl (fun found t => (t.find? k).or found) (m.find? k) := by
    induction ts with
    | nil => exact fun _ => rfl
    | cons t ts ih =>
      intro m
      rw [flatMap_cons, foldl_append, ih, find?_inserts k t.entries t.nodup]
      rfl
  exact hfold ts empty

end OrderedMap

structure OrderedMap.Paired (t : OrderedMap Operator OperatorFamily) : Prop where
  same : t.find? .ne = t.find? .eq
  apart : t.find? .eq ≠ some .null

namespace OrderedMap

instance (t : OrderedMap Operator OperatorFamily) : Decidable t.Paired :=
  decidable_of_iff (t.find? .ne = t.find? .eq ∧ t.find? .eq ≠ some .null)
    ⟨fun h => ⟨h.1, h.2⟩, fun h => ⟨h.1, h.2⟩⟩

theorem Paired.ofList {ts : List (OrderedMap Operator OperatorFamily)} (hts : ∀ t ∈ ts, t.Paired) :
    (ofList (ts.flatMap entries)).Paired := by
  refine ⟨?_, ?_⟩
  · rw [find?_ofList_flatMap .ne ts, find?_ofList_flatMap .eq ts]
    exact foldl_ext _ _ none fun found t ht => by rw [(hts t ht).same]
  · rw [find?_ofList_flatMap .eq ts]
    refine foldlRecOn (motive := (· ≠ some OperatorFamily.null)) ts _ nofun
      fun found hfound t ht => ?_
    cases hfind : t.find? .eq with
    | none => exact hfound
    | some family => exact fun hnull => (hts t ht).apart (hfind.trans hnull)

end OrderedMap

def Heap.Tabled (h : Heap) : Prop :=
  ∀ c, (h.classAt c).operators.Paired

theorem Heap.inheritedOperators_eq (h : Heap) (k : Class) : h.inheritedOperators k = .ofList
    ((k.supers.map (fun p => (h.classAt p).operators) ++ [k.operators]).flatMap
      OrderedMap.entries) := by
  unfold inheritedOperators
  rw [flatMap_append, flatMap_map, flatMap_singleton]

theorem Heap.Tabled.inherited (ht : h.Tabled) (c : ClassId) :
    (h.inheritedOperators (h.classAt c)).Paired := by
  rw [inheritedOperators_eq]
  refine .ofList fun t hin => ?_
  rcases mem_append.mp hin with hin | hin
  · obtain ⟨p, -, rfl⟩ := mem_map.mp hin
    exact ht p
  · rw [mem_singleton.mp hin]
    exact ht c

theorem Heap.Tabled.becomes (ht : h.Tabled) {c : ClassId} {k : Class}
    (hk : h.Becomes c k) : k.operators.Paired := by
  cases hk with
  | same | field => exact ht c
  | new _ _ _ _ hoperators =>
    rw [hoperators]
    decide
  | taken => exact ht.inherited c

theorem World.heap_tabled : heap.2.Tabled := by
  have hall : ∀ c, c < heap.2.classes.size → (heap.2.classAt c).operators.Paired := by
    decide +kernel
  have hnew (h : Heap) (c : ClassId) (hc : ¬ c < h.classes.size) :
      (h.classAt c).operators.Paired := by
    rw [show h.classAt c = default from getD_of_size_le (Nat.not_lt.mp hc) _]
    decide
  intro c
  by_cases hc : c < heap.2.classes.size
  · exact hall c hc
  · exact hnew _ c hc

theorem InSession.tabled {m₀ m : Machine} (hm : InSession m₀) (hrun : m₀.Runs m) : m.heap.Tabled :=
  InSession.keeps World.heap_tabled (fun _ _ _ _ hstep ht c => ht.becomes (hstep.classes c)) hm hrun

end ClassScript
