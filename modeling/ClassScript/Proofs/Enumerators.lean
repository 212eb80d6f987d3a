import ClassScript.Library.Sequence
import ClassScript.Proofs.Sorting

/-!
# Walks over a Growing List

What is added to a list is visited by an enumerator, unless a move has found the end. Then the
enumerator stands behind the last element, and the next one that is added stands where it already
is: it is the current element without a move, and the next move goes past it.
-/

namespace ClassScript

open List hiding getElem?_eq_some_iff
open Heap Enumerator
open Eval hiding pure

namespace Walk

/-- What is done with a list and its enumerator. -/
inductive Turn where
  | add (v : Value)
  | move

/-- What comes of a turn. -/
inductive Event where
  | added (v : Value)
  | seen (v : Value)
  | ended
deriving DecidableEq

def Event.added? : Event → Option Value
  | .added v => some v
  | _ => none

def Event.seen? : Event → Option Value
  | .seen v => some v
  | _ => none

def Event.turn : Event → Turn
  | .added v => .add v
  | _ => .move

variable (L : Level) (list walk : ObjectId)

def current : Eval Value :=
  Library.sequence .current ⟨some (.object walk), []⟩

def turn : Turn → Eval Event
  | .add v => do
    let _ ← Library.list L .add ⟨some (.object list), [v]⟩
    return .added v
  | .move => do
    if (← Library.sequence .moveNext ⟨some (.object walk), []⟩) = .bool true then
      return .seen (← current walk)
    else return .ended

def turns : List Turn → Eval (List Event)
  | [] => return []
  | t :: ts => do
    let e ← turn L list walk t
    return e :: (← turns ts)

def missed : (size : Nat) → List Event → List Nat
  | _, [] => []
  | size, .added _ :: log => missed (size + 1) log
  | size, .seen _ :: log => missed size log
  | size, .ended :: log => size :: missed size log

def kept (places : List Nat) (vs : List Value) : List Value :=
  (vs.zipIdx.filter fun x => x.2 ∉ places).map (·.1)

inductive Step (now : List Value) (position : Option Nat) :
    Event → List Value → Option Nat → Prop
  | added (v : Value) : Step now position (.added v) (now ++ [v]) position
  | seen {v : Value} (hv : now[following position]? = some v) :
      Step now position (.seen v) now (some (following position))
  | ended (hend : now.length ≤ following position) :
      Step now position .ended now (some now.length)

inductive Trace (start : List Value) : List Event → List Value → Option Nat → Prop
  | start : Trace start [] start none
  | step {log : List Event} {now now' : List Value} {position position' : Option Nat} {e : Event}
      (h : Trace start log now position) (hstep : Step now position e now' position') :
      Trace start (log ++ [e]) now' position'

variable {list walk} {start now vs front : List Value} {log : List Event} {position : Option Nat}

theorem missed_append (size : Nat) (log log' : List Event) :
    missed size (log ++ log') =
      missed size log ++ missed (size + (log.filterMap Event.added?).length) log' := by
  induction log generalizing size with
  | nil => rfl
  | cons e log ih =>
    cases e <;>
      simp [missed, ih, filterMap_cons, Event.added?, Nat.add_comm, Nat.add_left_comm]

theorem kept_concat (places : List Nat) (vs : List Value) (v : Value) :
    kept places (vs ++ [v]) = kept places vs ++ if vs.length ∈ places then [] else [v] := by
  unfold kept
  rw [zipIdx_append, filter_append, map_append]
  by_cases hin : vs.length ∈ places <;> simp [hin]

theorem kept_prefix (places : List Nat) (n : Nat) (vs : List Value) :
    kept places (vs.take n) <+: kept places vs := by
  have htake : (vs.take n).zipIdx <+: vs.zipIdx := by
    nth_rewrite 2 [← take_append_drop n vs]
    rw [zipIdx_append]
    exact prefix_append _ _
  exact (htake.filter _).map _

theorem kept_congr {places places' : List Nat} (h : ∀ i < vs.length, i ∈ places ↔ i ∈ places') :
    kept places vs = kept places' vs := by
  unfold kept
  rw [filter_congr fun x hx => ?_]
  simp only [h x.2 (by simpa using snd_lt_of_mem_zipIdx hx)]

theorem kept_nil (vs : List Value) : kept [] vs = vs := by
  simp [kept]

theorem eq_of_mem_missed {size : Nat}
    (h : ∀ front back, log = front ++ .ended :: back → back.filterMap Event.added? = []) :
    ∀ i ∈ missed size log, i = size + (log.filterMap Event.added?).length := by
  induction log generalizing size with
  | nil => exact nofun
  | cons e log ih =>
    have hlog {size : Nat} := @ih size fun front back heq => h (e :: front) back (heq ▸ rfl)
    cases e with
    | added v =>
      exact fun i hi => (hlog i hi).trans (Nat.succ_add_eq_add_succ _ _)
    | seen v => exact hlog
    | ended =>
      have hnone : (Event.ended :: log).filterMap Event.added? = [] := h [] log rfl
      rw [missed, hnone]
      exact forall_mem_cons.mpr
        ⟨rfl, fun i hi => (hlog i hi).trans (congrArg _ (congrArg List.length hnone))⟩

theorem Trace.now_eq (h : Trace start log now position) :
    now = start ++ log.filterMap Event.added? := by
  induction h with
  | start => simp
  | step _ hstep ih => cases hstep <;> simp [ih, filterMap_cons, Event.added?]

theorem Trace.missed_concat (h : Trace start log now position) (e : Event) :
    missed start.length (log ++ [e]) = missed start.length log ++ missed now.length [e] := by
  rw [missed_append, h.now_eq, length_append]

/-- The elements that have been seen are those in front of the enumerator, without those at
    the places where a move found the end. -/
structure Sees (start : List Value) (log : List Event) (now : List Value)
    (position : Option Nat) : Prop where
  seen : log.filterMap Event.seen? =
    kept (missed start.length log) (now.take (following position))
  missed_lt : ∀ i ∈ missed start.length log, i < following position
  mem_missed : now.length < following position → now.length ∈ missed start.length log
  le : following position ≤ now.length + 1

theorem Trace.sees (h : Trace start log now position) : Sees start log now position := by
  induction h with
  | start => exact ⟨rfl, nofun, nofun, Nat.zero_le _⟩
  | @step log now now' position position' e h hstep ih =>
    obtain ⟨hseen, hlt, hmem, hle⟩ := ih
    have hmissed := h.missed_concat e
    cases hstep with
    | added v =>
      simp only [missed, append_nil] at hmissed
      refine ⟨?_, hmissed ▸ hlt, by grind, by grind⟩
      rw [filterMap_append, hmissed, hseen]
      -- Behind the end stands what a move has missed.
      rcases Nat.lt_or_ge now.length (following position) with hpast | hin
      · have hall : (now ++ [v]).take (following position) = now ++ [v] :=
          take_of_length_le (by simpa using hpast)
        rw [hall, kept_concat, if_pos (hmem hpast), take_of_length_le hpast.le]
        rfl
      · rw [take_append_of_le_length hin]
        exact append_nil _
    | @seen v hv =>
      simp only [missed, append_nil] at hmissed
      have hnew : following position ∉ missed start.length log := fun hin =>
        Nat.lt_irrefl _ (hlt _ hin)
      have hlength := (getElem?_eq_some_iff.mp hv).1
      refine ⟨?_, by grind [following], by grind [following], by grind [following]⟩
      change _ = kept _ (now.take (following position + 1))
      rw [filterMap_append, hmissed, hseen, take_add_one, hv, Option.toList_some, kept_concat,
        length_take, Nat.min_eq_left hlength.le, if_neg hnew]
      rfl
    | ended hend =>
      simp only [missed] at hmissed
      refine ⟨?_, by grind [following], by grind [following], Nat.le_refl _⟩
      have hbefore : ∀ i < now.length,
          i ∈ missed start.length log ↔ i ∈ missed start.length (log ++ [.ended]) := by grind
      rw [filterMap_append, hseen, take_of_length_le hend, kept_congr hbefore]
      change _ = kept _ (now.take (now.length + 1))
      rw [take_of_length_le (Nat.le_succ _)]
      exact append_nil _

theorem Trace.past (h : Trace start (log ++ .ended :: vs.map .added) now position) :
    ∃ before, now = before ++ vs ∧ position = some before.length := by
  induction vs using List.reverseRecOn generalizing now with
  | nil =>
    generalize hlog : log ++ .ended :: map .added [] = log' at h
    cases h with
    | start => simp at hlog
    | step h hstep =>
      obtain ⟨-, hlast⟩ := append_inj' hlog rfl
      cases hstep <;> simp at hlast
      exact ⟨now, (append_nil now).symm, rfl⟩
  | append_singleton vs v ih =>
    rw [map_append, map_singleton, ← cons_append, ← append_assoc] at h
    generalize hlog : log ++ .ended :: map .added vs ++ [Event.added v] = log' at h
    cases h with
    | start => simp at hlog
    | step h hstep =>
      obtain ⟨rfl, hlast⟩ := append_inj' hlog rfl
      cases hstep <;> simp at hlast
      subst hlast
      obtain ⟨before, rfl, rfl⟩ := ih h
      exact ⟨before, append_assoc .., rfl⟩

structure At (h : Heap) (list walk : ObjectId) (now : List Value) (position : Option Nat) :
    Prop where
  items : ∃ type, h.objects[list]? = some ⟨type, .list now.toArray⟩
  state : ∃ type, h.objects[walk]? = some ⟨type, .enumerator (.list list position)⟩

variable {L : Level} {m : Machine}

section

variable (h : At m.heap list walk now position)
include h

theorem At.isList : m.heap.IsList list now.toArray := by
  obtain ⟨type, hlist⟩ := h.items
  refine ⟨(getElem?_eq_some_iff.mp hlist).1, ?_⟩
  simp [items?, payloadOf, objectAt, Array.getD_eq_getD_getElem?, hlist]

theorem At.expectEnumerator :
    Library.expectEnumerator (.object walk) m = .done (walk, .list list position) m := by
  obtain ⟨type, hwalk⟩ := h.state
  have hstate : Enumeration.state? m.heap (.object walk) = some (walk, .list list position) := by
    simp [Enumeration.state?, payloadOf, objectAt, Array.getD_eq_getD_getElem?, hwalk]
  unfold Library.expectEnumerator
  rw [ask_bind, hstate]
  rfl

theorem At.current : current walk m = .done ((position.bind (now[·]?)).getD .null) m := by
  change (Library.expectEnumerator (.object walk) >>= fun e => _) m = _
  rw [bind_of_done h.expectEnumerator]
  cases position with
  | none => rfl
  | some i =>
    change Outcome.done (((m.heap.items? (.object list)).getD #[]).getD i .null) m = _
    rw [h.isList.items]
    simp [Array.getD_eq_getD_getElem?]

theorem At.add (v : Value) :
    ∃ m', Library.list L .add ⟨some (.object list), [v]⟩ m = .done .null m' ∧
      At m'.heap list walk (now ++ [v]) position := by
  obtain ⟨type, hlist⟩ := h.items
  obtain ⟨type', hwalk⟩ := h.state
  have hne : list ≠ walk := by
    rintro rfl
    simp [hlist] at hwalk
  have hexpect : Library.expectList (.object list) m = .done list m := by
    unfold Library.expectList
    rw [ask_bind, h.isList.items]
    rfl
  change ∃ m', (Library.expectList (.object list) >>= fun id => _) m = _ ∧ _
  rw [bind_of_done hexpect]
  refine ⟨_, rfl, ⟨type, ?_⟩, ⟨type', ?_⟩⟩
  · simp [updatePayload, Array.getElem?_modify, hlist, Payload.change]
    rfl
  · simp [updatePayload, Array.getElem?_modify, hwalk, hne]

theorem At.moveNext :
    ∃ m', Library.sequence .moveNext ⟨some (.object walk), []⟩ m =
        .done (.bool (following position < now.length)) m' ∧
      At m'.heap list walk now (some (min (following position) now.length)) := by
  obtain ⟨type, hlist⟩ := h.items
  obtain ⟨type', hwalk⟩ := h.state
  have hne : walk ≠ list := by
    rintro rfl
    simp [hlist] at hwalk
  have hmove : (Enumerator.list list position).move m.heap =
      (decide (following position < now.length),
      .list list (some (min (following position) now.length))) := by
    simp [Enumerator.move, Enumerator.length, h.isList.items]
  change ∃ m', (Library.expectEnumerator (.object walk) >>= fun e => _) m = _ ∧ _
  rw [bind_of_done h.expectEnumerator]
  have hdone : Enumeration.move walk (.list list position) m =
      .done (following position < now.length)
        { m with
          heap := m.heap.setPayload walk
            (.enumerator (.list list (some (min (following position) now.length)))) } := by
    unfold Enumeration.move
    rw [ask_bind, hmove]
    rfl
  dsimp only
  rw [bind_of_done hdone]
  refine ⟨_, rfl, ⟨type, ?_⟩, ⟨type', ?_⟩⟩
  · simp [setPayload, updatePayload, Array.getElem?_modify, hlist, hne]
  · simp [setPayload, updatePayload, Array.getElem?_modify, hwalk, Payload.change]

theorem turn_steps (t : Turn) :
    ∃ e m' now' position', turn L list walk t m = .done e m' ∧ e.turn = t ∧
      Step now position e now' position' ∧ At m'.heap list walk now' position' := by
  cases t with
  | add v =>
    obtain ⟨m', hadd, hat⟩ := h.add (L := L) v
    refine ⟨_, m', _, _, ?_, rfl, .added v, hat⟩
    unfold turn
    dsimp only
    rw [bind_of_done hadd]
    rfl
  | move =>
    obtain ⟨m', hmove, hat⟩ := h.moveNext
    unfold turn
    dsimp only
    rw [bind_of_done hmove]
    by_cases hin : following position < now.length
    · rw [decide_eq_true hin, if_pos rfl, bind_of_done hat.current]
      rw [Nat.min_eq_left hin.le] at hat ⊢
      refine ⟨_, m', now, _, rfl, rfl, .seen ?_, hat⟩
      simp [hin]
    · rw [decide_eq_false hin, if_neg (by decide)]
      rw [Nat.min_eq_right (by omega)] at hat
      exact ⟨_, m', now, _, rfl, rfl, .ended (by omega), hat⟩

end

theorem turns_trace (ts : List Turn) (htrace : Trace start log now position)
    (hat : At m.heap list walk now position) :
    ∃ more m' now' position', turns L list walk ts m = .done more m' ∧ more.map Event.turn = ts ∧
      Trace start (log ++ more) now' position' ∧ At m'.heap list walk now' position' := by
  induction ts generalizing log now position m with
  | nil => exact ⟨[], m, now, position, rfl, rfl, (append_nil log).symm ▸ htrace, hat⟩
  | cons t ts ih =>
    obtain ⟨e, m₁, now₁, position₁, hturn, rfl, hstep, hat₁⟩ := turn_steps (L := L) hat t
    obtain ⟨more, m', now', position', hturns, rfl, htrace', hat'⟩ := ih (htrace.step hstep) hat₁
    refine ⟨e :: more, m', now', position', ?_, rfl, by simpa using htrace', hat'⟩
    unfold turns
    rw [bind_of_done hturn, bind_of_done hturns]
    rfl

end Walk

open Walk

/-- A fresh enumerator sees the elements of a growing list in their order, without gaps, as long as
    nothing is added behind a move that found the end. What is added there first is the current
    element at once, and is passed over. -/
theorem Library.enumerator_walks {m : Machine} {list : ObjectId} {items : Array Value}
    (hlist : m.heap.IsList list items) (L : Level) (ts : List Turn) :
    ∃ (walk : ObjectId) (m₁ m' : Machine) (log : List Event),
      Library.list L .getEnumerator ⟨some (.object list), []⟩ m = .done (.object walk) m₁ ∧
      turns L list walk ts m₁ = .done log m' ∧ log.map Event.turn = ts ∧
      let now := items.toList ++ log.filterMap Event.added?
      m'.heap.IsList list now.toArray ∧
      log.filterMap Event.seen? <+: kept (missed items.size log) now ∧
      ((∀ front back, log = front ++ .ended :: back → back.filterMap Event.added? = []) →
        log.filterMap Event.seen? <+: now) ∧
      ∀ front (vs : List Value), log = front ++ .ended :: vs.map .added →
        current walk m' = .done (vs.headD .null) m' := by
  let m₁ := { m with
    heap := (m.heap.newObject ClassId.enumerator (.enumerator (.list list none))).2 }
  have hat : At m₁.heap list m.heap.objects.size items.toList none := by
    obtain ⟨type, hobject⟩ := hlist.object
    have hne : list ≠ m.heap.objects.size := Nat.ne_of_lt hlist.lt
    exact ⟨⟨type, by simp [m₁, newObject, Array.getElem?_push, hne, hobject]⟩,
      ⟨ClassId.enumerator, by simp [m₁, newObject]⟩⟩
  obtain ⟨log, m', now, position, hturns, hlog, htrace, hat'⟩ := turns_trace (L := L) ts .start hat
  rw [nil_append] at htrace
  obtain rfl := htrace.now_eq
  have hprefix : log.filterMap Event.seen? <+:
      kept (missed items.size log) (items.toList ++ log.filterMap Event.added?) := by
    rw [htrace.sees.seen, Array.length_toList]
    exact kept_prefix _ _ _
  refine ⟨_, m₁, m', log, rfl, hturns, hlog, hat'.isList, hprefix, fun hend => ?_,
    fun front vs heq => ?_⟩
  · have hnone : ∀ i < (items.toList ++ log.filterMap Event.added?).length,
        i ∈ missed items.size log ↔ i ∈ [] := by
      intro i hi
      rw [length_append, Array.length_toList] at hi
      exact ⟨fun hin => absurd (eq_of_mem_missed hend i hin) hi.ne, nofun⟩
    rwa [kept_congr hnone, kept_nil] at hprefix
  · obtain rfl := heq
    obtain ⟨before, hnow, rfl⟩ := htrace.past
    rw [hat'.current, hnow]
    cases vs <;> simp

theorem Library.enumerator_walks_listed : ∃ (walk : ObjectId) (m₁ m' : Machine) (log : List Event),
    Library.list (level 20) .getEnumerator ⟨some (.object 0), []⟩ Machine.listed =
      .done (.object walk) m₁ ∧
    turns (level 20) 0 walk [.move, .add (.int 7), .move] m₁ = .done log m' := by
  have hlist : Machine.listed.heap.IsList 0 #[.int 3, .int 1, .int 2] :=
    ⟨by decide +kernel, by decide +kernel⟩
  obtain ⟨walk, m₁, m', log, hwalk, hlog, -⟩ :=
    Library.enumerator_walks hlist (level 20) [.move, .add (.int 7), .move]
  exact ⟨walk, m₁, m', log, hwalk, hlog⟩

theorem Library.added_element_passed :
    ((Request.source ("var xs = [1]; var e = xs.GetEnumerator(); e.MoveNext(); e.MoveNext(); " ++
        "xs.Add(2); print(e.Current); xs.Add(3); e.MoveNext(); print(e.Current);")).perform
      (level 60) (Machine.initial Config.standard default [])).machine.output = "23" := by
  decide +kernel

end ClassScript
