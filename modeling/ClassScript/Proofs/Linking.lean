import ClassScript.Proofs.Bracketing

/-!
# Linked Machines

The machines that occur have heaps in which all links lead to what is there, and a current scope
that exists.
-/

namespace ClassScript

structure Machine.Linked (m : Machine) : Prop where
  heap : m.heap.Linked
  root : m.heap.Rooted
  scope : m.registers.scope < m.heap.scopes.size
  globals : m.globals < m.heap.scopes.size

structure Machine.Leads (m m' : Machine) : Prop where
  linked : m'.Linked
  grows : m.heap.Grows m'.heap

def Outcome.endsIn {α : Type} (test : α → Machine → Bool) : Outcome α → Bool
  | .done a m => test a m
  | _ => false

theorem Outcome.done_of_endsIn {α : Type} {test : α → Machine → Bool} {o : Outcome α}
    (ho : o.endsIn test = true) : ∃ a m, o = .done a m ∧ test a m = true := by
  cases o with
  | done a m => exact ⟨a, m, rfl, ho⟩
  | failed | stopped => cases ho

def Outcome.machine {α : Type} : Outcome α → Machine
  | .done _ m => m
  | .failed _ m => m
  | .stopped m => m

namespace Machine

variable {m : Machine}

theorem Leads.refl (hm : m.Linked) : m.Leads m := ⟨hm, Heap.Grows.refl m.heap⟩

theorem Leads.trans {a b c : Machine} (hab : a.Leads b) (hbc : b.Leads c) : a.Leads c :=
  ⟨hbc.linked, hab.grows.trans hbc.grows⟩

theorem Leads.of_heap (hm : m.Linked) {h : Heap} (hh : m.heap.Leads h) :
    m.Leads { m with heap := h } where
  linked :=
    { heap := hh.linked
      root := hm.root.grows hh.grows
      scope := Nat.lt_of_lt_of_le hm.scope hh.grows.scopes
      globals := Nat.lt_of_lt_of_le hm.globals hh.grows.scopes }
  grows := hh.grows

theorem Linked.withRegisters (hm : m.Linked) {r : Registers}
    (hr : r.scope < m.heap.scopes.size) : Linked { m with registers := r } :=
  { hm with scope := hr }

end Machine

/-- A machine that occurs: a new one, or where a request to one that occurs ends or
    is stopped. -/
inductive Reachable : Machine → Prop
  | initial (config : Config) (disk : Disk) (hosts : List HostClass) :
      Reachable (Machine.initial config disk hosts)
  | request {m : Machine} (hm : Reachable m) (watch : Machine → Bool) (n : Nat) (r : Request) :
      Reachable (r.perform (watchedLevel watch n) m).machine

end ClassScript
