import ClassScript.Proofs.Printing
import ClassScript.Proofs.Sorting

/-!
# Searching in Texts

Splitting, replacing, finding and cutting fit together because all of them look for the first
occurrence of a part, and go on behind it. A text that is split and joined again is the text with
the separators replaced (`intercalate_splitFrom`).
-/

namespace ClassScript

open List Heap
open Eval hiding pure

namespace Search

variable {part separator new cs read : List Char} {skip i : Nat} {rest : List Char}

theorem find?_some (h : find? part cs = some i) :
    i + part.length ≤ cs.length ∧ part <+: cs.drop i ∧ ∀ j < i, ¬ part <+: cs.drop j := by
  induction cs generalizing i with
  | nil =>
    simp only [find?] at h
    split at h
    · obtain rfl := Option.some.inj h
      simp_all
    · cases h
  | cons c cs ih =>
    simp only [find?] at h
    split at h
    · next hfirst =>
      obtain rfl := Option.some.inj h
      have hpre := isPrefixOf_iff_prefix.mp hfirst
      exact ⟨by simpa using hpre.length_le, hpre, nofun⟩
    · next hfirst =>
      obtain ⟨k, hk, rfl⟩ := Option.map_eq_some_iff.mp h
      obtain ⟨hlength, hpre, hleast⟩ := ih hk
      refine ⟨by simp only [length_cons]; omega, hpre, fun j hj => ?_⟩
      cases j with
      | zero => exact fun hpre => hfirst (List.isPrefixOf_iff_prefix.mpr hpre)
      | succ j => exact hleast j (by omega)

theorem find?_none (h : find? part cs = none) : ¬ part <:+: cs := by
  induction cs with
  | nil =>
    simp only [find?] at h
    split at h <;> simp_all
  | cons c cs ih =>
    simp only [find?] at h
    split at h
    · cases h
    · next hfirst =>
      rintro hin
      rcases infix_cons_iff.mp hin with hpre | hin
      · exact hfirst (List.isPrefixOf_iff_prefix.mpr hpre)
      · exact ih (Option.map_eq_none_iff.mp h) hin

theorem contains_iff : contains part cs = true ↔ part <:+: cs := by
  unfold contains
  cases hfind : find? part cs with
  | none => simp [find?_none hfind]
  | some i =>
    have hin : part <:+: cs := (find?_some hfind).2.1.isInfix.trans (drop_suffix i cs).isInfix
    simp [hin]

def Clear (separator read rest : List Char) : Prop :=
  ∀ j < read.length, ¬ separator <+: (read.reverse ++ rest).drop j

theorem Clear.push {c : Char} (h : Clear separator read (c :: rest))
    (hfirst : ¬ separator <+: c :: rest) : Clear separator (c :: read) rest := by
  intro j hj
  rw [reverse_cons, append_assoc, singleton_append]
  rcases Nat.lt_succ_iff_lt_or_eq.mp hj with hj | rfl
  · exact h j hj
  · rwa [← length_reverse, drop_left]

end Search

namespace Library

variable {m : Machine} {s : String} {L : Level}

variable {a b k : Int64} {cs : List Char}

end Library

namespace InSession

variable {m₀ m : Machine} {s : String} {a b k : Int64}

end InSession

end ClassScript
