/-!
# Maps in Insertion Order

Entries keep the order in which their keys were first inserted. Giving a key a new value leaves it
in its place, and erasing a key leaves the order of the others. No key occurs twice.
-/

namespace ClassScript

@[ext]
structure OrderedMap (κ α : Type) where
  entries : List (κ × α)
  nodup : (entries.map (·.1)).Nodup
deriving DecidableEq, Repr

namespace OrderedMap

variable {κ α β : Type}

def empty : OrderedMap κ α :=
  ⟨[], .nil⟩

instance : Inhabited (OrderedMap κ α) := ⟨empty⟩

def keys (m : OrderedMap κ α) : List κ :=
  m.entries.map (·.1)

def values (m : OrderedMap κ α) : List α :=
  m.entries.map (·.2)

def size (m : OrderedMap κ α) : Nat :=
  m.entries.length

def isEmpty (m : OrderedMap κ α) : Bool :=
  m.entries.isEmpty

theorem filterMap_sublist (f : κ → α → Option β) (entries : List (κ × α)) :
    ((entries.filterMap fun e => (f e.1 e.2).map (e.1, ·)).map (·.1)).Sublist
      (entries.map (·.1)) := by
  induction entries with
  | nil => exact .slnil
  | cons e rest ih =>
    rw [List.filterMap_cons]
    cases f e.1 e.2 with
    | none => exact ih.cons e.1
    | some => exact ih.cons_cons e.1

/-- The entries for which there is a new value, with that value. -/
def filterMap (f : κ → α → Option β) (m : OrderedMap κ α) : OrderedMap κ β :=
  ⟨m.entries.filterMap fun e => (f e.1 e.2).map (e.1, ·),
    m.nodup.sublist (filterMap_sublist f m.entries)⟩

variable [DecidableEq κ]

def findIn (k : κ) : List (κ × α) → Option α
  | [] => none
  | (k', a) :: rest => if k' = k then some a else findIn k rest

def find? (m : OrderedMap κ α) (k : κ) : Option α :=
  findIn k m.entries

def contains (m : OrderedMap κ α) (k : κ) : Bool :=
  (m.find? k).isSome

/-- A list of entries in which a key has a value: in its place, or at the end if
    it is new. -/
def insertIn (k : κ) (a : α) : List (κ × α) → List (κ × α)
  | [] => [(k, a)]
  | (k', b) :: rest => if k' = k then (k', a) :: rest else (k', b) :: insertIn k a rest

theorem mem_insertIn {k : κ} {a : α} {e : κ × α} {entries : List (κ × α)}
    (h : e ∈ insertIn k a entries) : e = (k, a) ∨ e ∈ entries := by
  induction entries with
  | nil => exact .inl (List.mem_singleton.mp h)
  | cons =>
    rw [insertIn] at h
    all_goals grind

theorem nodup_insertIn (k : κ) (a : α) (entries : List (κ × α)) (h : (entries.map (·.1)).Nodup) :
    ((insertIn k a entries).map (·.1)).Nodup := by
  induction entries with
  | nil => exact List.nodup_cons.mpr ⟨List.not_mem_nil, .nil⟩
  | cons first rest ih =>
    obtain ⟨hfirst, hrest⟩ := List.nodup_cons.mp h
    rw [insertIn]
    split
    · exact h
    · next hk =>
      refine List.nodup_cons.mpr ⟨fun hin => ?_, ih hrest⟩
      obtain ⟨e, he, hek⟩ := List.mem_map.mp hin
      rcases mem_insertIn he with rfl | he
      · exact hk hek.symm
      · exact hfirst (hek ▸ List.mem_map_of_mem he)

def insert (m : OrderedMap κ α) (k : κ) (a : α) : OrderedMap κ α :=
  ⟨insertIn k a m.entries, nodup_insertIn k a m.entries m.nodup⟩

def eraseIn (k : κ) : List (κ × α) → List (κ × α)
  | [] => []
  | (k', a) :: rest => if k' = k then rest else (k', a) :: eraseIn k rest

theorem eraseIn_sublist (k : κ) (entries : List (κ × α)) : (eraseIn k entries).Sublist entries := by
  induction entries with
  | nil => exact .slnil
  | cons e rest ih =>
    rw [eraseIn]
    split
    · exact List.sublist_cons_self e rest
    · exact ih.cons_cons e

def erase (m : OrderedMap κ α) (k : κ) : OrderedMap κ α :=
  ⟨eraseIn k m.entries, m.nodup.sublist ((eraseIn_sublist k m.entries).map _)⟩

def ofList (entries : List (κ × α)) : OrderedMap κ α :=
  entries.foldl (fun m (k, a) => m.insert k a) empty

end OrderedMap

end ClassScript
