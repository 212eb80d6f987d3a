import ClassScript.Data.OrderedMap
import Mathlib.Data.List.Nodup

/-!
# What Is Found in a Map

A key stands for one entry, so finding a key and having its entry are the same.
-/

namespace ClassScript

open List

namespace OrderedMap

variable {κ α β : Type} [DecidableEq κ] {m : OrderedMap κ α} {k : κ} {a b : α}

theorem findIn_eq_none {entries : List (κ × α)} (hk : k ∉ entries.map Prod.fst) :
    findIn k entries = none := by
  induction entries with
  | nil => rfl
  | cons first rest ih =>
    obtain ⟨hne, hrest⟩ := not_or.mp (fun h => hk (mem_cons.mpr h))
    rw [findIn, if_neg (Ne.symm hne)]
    exact ih hrest

theorem find?_eq_some_iff : m.find? k = some a ↔ (k, a) ∈ m.entries := by
  obtain ⟨entries, hnodup⟩ := m
  change findIn k entries = some a ↔ (k, a) ∈ entries
  induction entries with
  | nil => simp [findIn]
  | cons first rest ih =>
    obtain ⟨hfirst, hrest⟩ := nodup_cons.mp hnodup
    rw [findIn, mem_cons]
    split
    · next hk =>
      have hout : (k, a) ∉ rest := fun hin => hfirst (mem_map.mpr ⟨_, hin, hk.symm⟩)
      grind
    · next hk =>
      rw [ih hrest]
      grind

theorem mem_of_find? (h : m.find? k = some a) : (k, a) ∈ m.entries :=
  find?_eq_some_iff.mp h

theorem isSome_find? (m : OrderedMap κ α) (k : κ) : (m.find? k).isSome = decide (k ∈ m.keys) := by
  unfold find? keys
  induction m.entries with
  | nil => rfl
  | cons e entries ih => by_cases hk : e.1 = k <;> simp_all [findIn, eq_comm]

theorem find?_insert (m : OrderedMap κ α) (k : κ) (a : α) (k' : κ) :
    (m.insert k a).find? k' = if k = k' then some a else m.find? k' := by
  change findIn k' (insertIn k a m.entries) = if k = k' then some a else findIn k' m.entries
  induction m.entries with
  | nil => rfl
  | cons =>
    rw [insertIn]
    split
    · next hk =>
      rw [findIn, findIn]
      simp_all
    · next hk =>
      rw [findIn, findIn]
      grind

theorem find?_filterMap (f : κ → α → Option β) (m : OrderedMap κ α) (k : κ) :
    (m.filterMap f).find? k = (m.find? k).bind (f k) := by
  refine Option.ext fun b => ?_
  rw [find?_eq_some_iff, Option.bind_eq_some_iff]
  simp [filterMap, find?_eq_some_iff]

theorem filterMap_insert {f : κ → α → Option β} (hf : f k a = f k b) (hb : m.find? k = some b) :
    (m.insert k a).filterMap f = m.filterMap f := by
  refine OrderedMap.ext ?_
  change (insertIn k a m.entries).filterMap _ = m.entries.filterMap _
  change findIn k m.entries = some b at hb
  generalize m.entries = entries at hb ⊢
  induction entries with
  | nil => cases hb
  | cons e rest ih =>
    rw [findIn] at hb
    rw [insertIn]
    split at hb
    · next hk =>
      cases hb
      simp [hk, filterMap_cons, hf]
    · next hk => simp [hk, filterMap_cons, ih hb]

end OrderedMap

end ClassScript
