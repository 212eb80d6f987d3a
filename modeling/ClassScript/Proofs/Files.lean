import ClassScript.File.Disk
import Mathlib.Data.List.Perm.Subperm

/-!
# Canonical Paths

A path is followed piece by piece from the root on. What it leads to has one canonical path, so
there are no more canonical paths of files than files.
-/

namespace ClassScript

open List

namespace Path

variable {names : List String}

structure IsName (piece : String) : Prop where
  step : isStep piece = true
  down : piece ≠ ".."
  undivided : '/' ∉ piece.toList

def IsCanonical (path : String) : Prop :=
  ∃ names, (∀ name ∈ names, IsName name) ∧ path = ofNames names

theorem undivided_of_mem_pieces {p piece : String} (h : piece ∈ pieces p) : '/' ∉ piece.toList := by
  obtain ⟨cs, hcs, rfl⟩ := mem_map.mp h
  rw [String.toList_ofList]
  have hparts (l : List Char) : ∀ cs ∈ l.splitOn '/', '/' ∉ cs := by
    induction l with
    | nil => simp
    | cons c l ih =>
      rw [splitOn_cons_eq_if_modifyHead]
      by_cases hc : c = '/'
      · simpa [hc] using ih
      · -- The character stands in front of the first piece.
        cases hl : l.splitOn '/' with
        | nil => exact absurd hl (splitOn_ne_nil _ _)
        | cons =>
          rw [hl] at ih
          simp only [forall_mem_cons] at ih
          simp only [beq_iff_eq, hc]
          refine forall_mem_cons.mpr ⟨fun hmem => ?_, ih.2⟩
          grind
  exact hparts _ cs hcs

theorem filter_pieces_ofNames (h : ∀ name ∈ names, IsName name) :
    (pieces (ofNames names)).filter isStep = names := by
  have hchars : (ofNames names).toList =
      [] ++ '/' :: ['/'].intercalate (names.map String.toList) := by
    rw [ofNames, String.toList_append, String.toList_intercalate]
    rfl
  rw [pieces, hchars, splitOn_append_cons_self_of_not_mem not_mem_nil]
  cases names with
  | nil => rfl
  | cons name rest =>
    have hundivided : ∀ cs ∈ (name :: rest).map String.toList, '/' ∉ cs := by
      intro cs hcs
      obtain ⟨n, hn, rfl⟩ := mem_map.mp hcs
      exact (h n hn).undivided
    rw [splitOn_intercalate '/' hundivided (by simp), map_cons, map_map]
    have hback : String.ofList ∘ String.toList = id := funext fun s => String.ofList_toList
    rw [hback, map_id]
    exact filter_eq_self.mpr fun n hn => (h n hn).step

theorem isAbsolute_ofNames (names : List String) : isAbsolute (ofNames names) = true := by
  unfold isAbsolute ofNames
  simp

theorem pieces_ofNames_ne_up (h : ∀ name ∈ names, IsName name) :
    ∀ piece ∈ pieces (ofNames names), piece ≠ ".." := by
  rintro piece hp rfl
  have hmem : ".." ∈ (pieces (ofNames names)).filter isStep := mem_filter.mpr ⟨hp, by decide⟩
  rw [filter_pieces_ofNames h] at hmem
  exact (h _ hmem).down rfl

end Path

namespace Disk

variable {d : Disk} {path file : String} {here next names : List String}

theorem step_cases {piece : String} (h : d.step here piece = .ok next) :
    (Path.isStep piece = false ∧ next = here) ∨ (piece = ".." ∧ next = here.dropLast) ∨
      (Path.isStep piece = true ∧ piece ≠ ".." ∧ next = here ++ [piece]) := by
  unfold step at h
  dsimp only at h
  split at h
  · cases h
  · split at h
    · next hstep =>
        cases h
        exact .inl ⟨by simpa using hstep, rfl⟩
    · next hstep =>
        split at h
        · next hup =>
            cases h
            exact .inr (.inl ⟨hup, rfl⟩)
        · next hup =>
            split at h
            · cases h
              exact .inr (.inr ⟨by simpa using hstep, hup, rfl⟩)
            · cases h

theorem walk_names (pieces : List String) (hp : ∀ piece ∈ pieces, '/' ∉ piece.toList) :
    ∀ here, (∀ name ∈ here, Path.IsName name) → d.walk here pieces = .ok names →
      ∀ name ∈ names, Path.IsName name := by
  induction pieces with
  | nil =>
    intro here hhere h
    cases h
    exact hhere
  | cons piece rest ih =>
    intro here hhere h
    obtain ⟨hpiece, hrest⟩ := forall_mem_cons.mp hp
    unfold walk at h
    split at h
    · next next hstep =>
        refine ih hrest next ?_ h
        rcases step_cases hstep with ⟨_, rfl⟩ | ⟨_, rfl⟩ | ⟨hs, hup, rfl⟩
        · exact hhere
        · exact fun name hname => hhere name (dropLast_subset _ hname)
        · exact forall_mem_append.mpr
            ⟨hhere, forall_mem_singleton.mpr ⟨hs, hup, hpiece⟩⟩
    · cases h

theorem walk_down (pieces : List String) (hp : ∀ piece ∈ pieces, piece ≠ "..") :
    ∀ here, d.walk here pieces = .ok names → names = here ++ pieces.filter Path.isStep := by
  induction pieces with
  | nil =>
    intro here h
    cases h
    simp
  | cons piece rest ih =>
    intro here h
    obtain ⟨hpiece, hrest⟩ := forall_mem_cons.mp hp
    unfold walk at h
    split at h
    · next next hstep =>
        rw [ih hrest next h]
        rcases step_cases hstep with ⟨hs, rfl⟩ | ⟨hup, _⟩ | ⟨hs, _, rfl⟩
        · simp [hs]
        · exact absurd hup hpiece
        · simp [hs]
    · cases h

theorem isCanonical_of_canonical (h : d.canonical path = .ok file) : Path.IsCanonical file := by
  unfold canonical at h
  cases hnames : d.namesOf path with
  | error e =>
    rw [hnames] at h
    cases h
  | ok names =>
    rw [hnames] at h
    cases h
    unfold namesOf at hnames
    split at hnames
    · cases hnames
    · exact ⟨names, walk_names _ (fun _ => Path.undivided_of_mem_pieces) [] (by simp) hnames, rfl⟩

theorem eq_ofNames_of_namesOf (hp : Path.IsCanonical path) (h : d.namesOf path = .ok names) :
    path = Path.ofNames names := by
  obtain ⟨given, hgiven, rfl⟩ := hp
  unfold namesOf at h
  split at h
  · cases h
  · rw [Path.join, if_pos (Path.isAbsolute_ofNames given)] at h
    have hdown := walk_down _ (Path.pieces_ofNames_ne_up hgiven) [] h
    rw [hdown, Path.filter_pieces_ofNames hgiven, nil_append]

theorem mem_files_of_readText {text : String} (hp : Path.IsCanonical path)
    (h : d.readText path = .ok text) : path ∈ d.files.map fun e => Path.ofNames e.1 := by
  unfold readText at h
  split at h
  · cases h
  · next names hnames =>
      split at h
      · cases h
      · next bytes hbytes =>
          obtain ⟨e, he, _⟩ := Option.map_eq_some_iff.mp hbytes
          have hkey : e.1 = names := by simpa using find?_some he
          rw [eq_ofNames_of_namesOf hp hnames, ← hkey]
          exact mem_map.mpr ⟨e, mem_of_find?_eq_some he, rfl⟩

theorem length_le_files {paths : List String} (honce : paths.Nodup)
    (hpaths : ∀ p ∈ paths, Path.IsCanonical p ∧ ∃ text, d.readText p = .ok text) :
    paths.length ≤ d.files.length := by
  have hsub : paths ⊆ d.files.map fun e => Path.ofNames e.1 := by
    intro p hp
    obtain ⟨hcanonical, text, htext⟩ := hpaths p hp
    exact mem_files_of_readText hcanonical htext
  calc paths.length ≤ (d.files.map fun e => Path.ofNames e.1).length :=
        (subperm_of_subset honce hsub).length_le
    _ = d.files.length := length_map _

end Disk

end ClassScript
