import ClassScript.Data.Range
import Mathlib.Tactic.Linarith

/-!
# The Views of a Range

Listing, testing and walking a range are compared with the progression `start + k * step` over the
unbounded integers. The length is computed from the ends, by words. It sees no further from the
start than the largest word, and is the number of the elements that lie there.
-/

namespace ClassScript

open List Option

variable {c : Int64}

theorem Word.ofInt?_eq_some {n : Int} : ofInt? n = some c ↔ c.toInt = n := by
  unfold ofInt?
  constructor
  · intro h
    split at h
    · cases h
      exact Int64.toInt_ofInt_of_le (And.left ‹_›) (And.right ‹_›)
    · cases h
  · intro h
    rw [← h, if_pos ⟨c.le_toInt, c.toInt_lt⟩, Int64.ofInt_toInt]

theorem Word.add?_eq_some {a b : Int64} : add? a b = some c ↔ c.toInt = a.toInt + b.toInt :=
  ofInt?_eq_some

namespace Range

variable {r : Range} {v w : Int64} {k : Nat} {s : Int}

theorem step_eq_zero : r.step = 0 ↔ r.step.toInt = 0 := by
  rw [← Int64.toInt_inj, Int64.toInt_zero]

theorem isBefore_iff (v : Int64) :
    r.isBefore v = true ↔ (0 < r.step.toInt → v.toInt < r.stop.toInt) ∧
      (¬ 0 < r.step.toInt → r.stop.toInt < v.toInt) := by
  unfold isBefore
  simp only [Int64.lt_iff_toInt_lt, Int64.toInt_zero]
  split <;> simp_all

theorem isBefore_of_back (hw : w.toInt = v.toInt + k * r.step.toInt)
    (hbefore : r.isBefore w = true) : r.isBefore v = true := by
  rw [isBefore_iff] at *
  have hk : (0 : Int) ≤ k := Int.natCast_nonneg k
  exact ⟨fun hs => by nlinarith [hbefore.1 hs], fun hs => by nlinarith [hbefore.2 hs]⟩

theorem exists_next (hw : w.toInt = v.toInt + (k + 1 : Nat) * s) :
    ∃ u : Int64, u.toInt = v.toInt + s ∧ w.toInt = u.toInt + k * s := by
  have hk : (0 : Int) ≤ k := Int.natCast_nonneg k
  push_cast at hw
  have hu : (Int64.ofInt (v.toInt + s)).toInt = v.toInt + s := by
    apply Int64.toInt_ofInt_of_le <;> rcases le_total 0 s with hs | hs <;>
      nlinarith [v.le_toInt, v.toInt_lt, w.le_toInt, w.toInt_lt]
  exact ⟨_, hu, by rw [hu]; linarith⟩

theorem elementsFrom_getElem? (hstep : r.step ≠ 0) (n : Nat) :
    ∀ (k : Nat) (v w : Int64), (r.elementsFrom n (some v))[k]? = some w ↔
      k < n ∧ w.toInt = v.toInt + k * r.step.toInt ∧ r.isBefore w = true := by
  induction n with
  | zero => simp [elementsFrom]
  | succ n ih =>
    intro k v w
    rw [elementsFrom]
    split
    · rename_i hv
      cases k with
      | zero =>
        simp only [getElem?_cons_zero, Option.some.injEq]
        constructor
        · rintro rfl
          simp [hv.2]
        · rintro ⟨-, hw, -⟩
          exact Int64.toInt_inj.mp (by simpa using hw.symm)
      | succ k =>
        rw [getElem?_cons_succ]
        constructor
        · intro h
          cases hu : Word.add? v r.step with
          | none =>
            rw [hu] at h
            cases n <;> simp [elementsFrom] at h
          | some u =>
            rw [hu, ih, Word.add?_eq_some.mp hu] at h
            exact ⟨by omega, by push_cast; linarith [h.2.1], h.2.2⟩
        · rintro ⟨hk, hw, hbefore⟩
          obtain ⟨u, hu, hw⟩ := exists_next hw
          rw [Word.add?_eq_some.mpr hu, ih]
          exact ⟨by omega, hw, hbefore⟩
    · rename_i hv
      simp only [getElem?_nil, reduceCtorEq, false_iff]
      rintro ⟨-, hw, hbefore⟩
      exact hv ⟨hstep, isBefore_of_back hw hbefore⟩

/-- The `k`-th element is the `k`-th word of the progression, if that lies before
    the stop. The bound on the number of elements is never met. -/
theorem take_getElem? {n : Nat} (hn : 2 ^ 64 ≤ n) (k : Nat) (v : Int64) :
    (r.take n)[k]? = some v ↔
      r.step ≠ 0 ∧ v.toInt = r.start.toInt + k * r.step.toInt ∧ r.isBefore v = true := by
  by_cases hstep : r.step = 0
  · obtain ⟨n, rfl⟩ := Nat.exists_eq_add_of_le' (Nat.le_trans (by decide : 1 ≤ 2 ^ 64) hn)
    simp [take, elementsFrom, hstep]
  · rw [take, elementsFrom_getElem? hstep]
    refine ⟨fun h => ⟨hstep, h.2⟩, fun h => ⟨?_, h.2⟩⟩
    by_contra hk
    have hk : (2 ^ 64 : Int) ≤ k := by omega
    rw [step_eq_zero] at hstep
    rcases lt_or_gt_of_ne hstep with hs | hs <;>
      nlinarith [r.start.le_toInt, r.start.toInt_lt, v.le_toInt, v.toInt_lt]

theorem elements_getElem? (k : Nat) (v : Int64) :
    r.elements[k]? = some v ↔
      r.step ≠ 0 ∧ v.toInt = r.start.toInt + k * r.step.toInt ∧ r.isBefore v = true :=
  take_getElem? (Nat.le_refl _) k v

theorem exists_steps {d : Int} (hs : s ≠ 0) :
    (∃ k : Nat, d = k * s) ↔ (if 0 < s then 0 ≤ d else d ≤ 0) ∧ s ∣ d := by
  constructor
  · rintro ⟨k, rfl⟩
    have hk : (0 : Int) ≤ k := Int.natCast_nonneg k
    refine ⟨?_, Int.dvd_mul_left ..⟩
    split <;> nlinarith
  · rintro ⟨hd, k, rfl⟩
    have hk : 0 ≤ k := by
      split at hd
      · exact nonneg_of_mul_nonneg_right hd ‹_›
      · exact nonneg_of_mul_nonpos_right hd (by omega)
    exact ⟨k.toNat, by rw [Int.toNat_of_nonneg hk, Int.mul_comm]⟩

theorem contains_iff (v : Int64) :
    r.contains v = true ↔ r.step ≠ 0 ∧ r.isBefore v = true ∧
      ∃ k : Nat, v.toInt = r.start.toInt + k * r.step.toInt := by
  unfold contains isBefore
  split
  · simp [*]
  · rename_i hstep
    simp only [← Int.sub_eq_iff_eq_add', exists_steps (mt step_eq_zero.mpr hstep),
      Int.dvd_iff_tmod_eq_zero, Int64.lt_iff_toInt_lt, Int64.toInt_zero]
    split <;> simp [hstep, Int64.le_iff_toInt_le] <;> tauto

theorem isEmpty_iff : r.isEmpty = true ↔ r.elements = [] := by
  have hfirst : r.elements = [] ↔ ¬ (r.step ≠ 0 ∧ r.isBefore r.start = true) := by
    rw [← head?_eq_none_iff, head?_eq_getElem?, eq_none_iff_forall_ne_some]
    simp only [ne_eq, elements_getElem?, Nat.cast_zero, zero_mul, add_zero, Int64.toInt_inj]
    exact ⟨fun h => fun ⟨hs, hb⟩ => h _ ⟨hs, rfl, hb⟩, fun h v ⟨hs, hv, hb⟩ => h ⟨hs, hv ▸ hb⟩⟩
  rw [hfirst, isBefore_iff, isEmpty, length, beq_iff_eq, ne_eq]
  split
  · simp [*]
  · rw [Nat.div_eq_zero_iff, reach]
    simp only [Int64.lt_iff_toInt_lt, Int64.toInt_zero, step_eq_zero] at *
    split <;> norm_num <;> omega

theorem pairwise_elements :
    if 0 < r.step then r.elements.Pairwise (· < ·) else r.elements.Pairwise (· > ·) := by
  have hget : ∀ (i : Nat) (hi : i < r.elements.length),
      r.step ≠ 0 ∧ r.elements[i].toInt = r.start.toInt + i * r.step.toInt := fun i hi =>
    ((elements_getElem? ..).mp (getElem?_eq_getElem hi)).imp_right And.left
  simp only [pairwise_iff_getElem, Int64.lt_iff_toInt_lt, Int64.toInt_zero, gt_iff_lt,
    ne_eq, step_eq_zero] at *
  split <;> intro i j hi hj hij <;> rw [(hget i hi).2, (hget j hj).2]
  · nlinarith
  · have : r.step.toInt < 0 := by have := (hget i hi).1; omega
    nlinarith

theorem reach_bounds : -2 ^ 63 ≤ r.reach ∧ r.reach < 2 ^ 63 ∧ r.length < 2 ^ 63 := by
  have hhigh : r.reach < 2 ^ 63 := by unfold reach; norm_num
  refine ⟨by simp [reach], hhigh, ?_⟩
  unfold length
  split
  · decide
  · have hsize : 0 < r.step.toInt.natAbs := Int.natAbs_pos.mpr (mt step_eq_zero.mpr ‹_›)
    have : r.reach.toNat < 2 ^ 63 := by omega
    refine (Nat.div_lt_iff_lt_mul hsize).mpr (Nat.sub_one_lt_of_le (by omega) ?_)
    nlinarith

namespace Walk

def moved (w : Walk) : (n : Nat) → Walk
  | 0 => w
  | n + 1 => (moved w n).move.2

inductive At (r : Range) : Nat → Walk → Prop
  | first : At r 0 (start r)
  | inside {n : Nat} {v : Int64} (hv : r.elements[n]? = some v) : At r (n + 1) ⟨r, some v, false⟩
  | past {n : Nat} {c : Option Int64} (hn : r.elements[n]? = none) : At r (n + 1) ⟨r, c, true⟩

variable {n : Nat} {w : Walk}

theorem At.range_eq (h : At r n w) : w.range = r := by
  cases h <;> rfl

theorem At.next? (h : At r n w) (hdone : w.done = false) :
    w.next?.filter r.contains = r.elements[n]? := by
  have hword : ∀ v : Int64, w.next? = some v ↔ v.toInt = r.start.toInt + n * r.step.toInt := by
    intro v
    cases h with
    | first => simp [Walk.next?, start, ← Int64.toInt_inj, eq_comm]
    | inside hv =>
      have := ((elements_getElem? ..).mp hv).2.1
      simp only [Walk.next?, Word.add?_eq_some]
      push_cast
      constructor <;> intro h <;> linarith
    | past => cases hdone
  ext v
  rw [filter_eq_some_iff, hword, elements_getElem?, contains_iff]
  exact ⟨fun ⟨hv, hs, hb, _⟩ => ⟨hs, hv, hb⟩, fun ⟨hs, hv, hb⟩ => ⟨hv, hs, hb, n, hv⟩⟩

theorem At.move (h : At r n w) :
    At r (n + 1) w.move.2 ∧ w.move.1 = (r.elements[n]?).isSome ∧
      w.move.2.value? = r.elements[n]? := by
  cases hdone : w.done with
  | true =>
    cases h with
    | past hn =>
      have hn := getElem?_eq_none (Nat.le_succ_of_le (List.getElem?_eq_none_iff.mp hn))
      exact ⟨.past hn, by simp [Walk.move, hn], by simp [Walk.move, value?, hn]⟩
    | _ => cases hdone
  | false =>
    have hnext := h.next? hdone
    have hrange := h.range_eq
    cases hv : r.elements[n]? with
    | none =>
      have hmove : w.move = (false, ⟨r, w.current, true⟩) := by
        rw [hv, filter_eq_none_iff] at hnext
        cases hw : w.next? <;> simp_all [Walk.move]
      simpa [hmove, value?] using At.past hv
    | some v =>
      have hmove : w.move = (true, ⟨r, some v, false⟩) := by
        rw [hv, filter_eq_some_iff] at hnext
        simp [Walk.move, *]
      simpa [hmove, value?] using At.inside hv

theorem at_moved (r : Range) (n : Nat) : At r n ((start r).moved n) := by
  induction n with
  | zero => exact .first
  | succ n ih => exact ih.move.1

end Walk

/-- The list, the test and the walk of a range agree. A walk gives the list and then nothing, also
    after a reset. -/
theorem views_agree (r : Range) :
    (∀ n, 2 ^ 64 ≤ n → r.take n = r.elements) ∧
    (if 0 < r.step then r.elements.Pairwise (· < ·) else r.elements.Pairwise (· > ·)) ∧
    (∀ v, r.contains v = true ↔ v ∈ r.elements) ∧
    (r.isEmpty = true ↔ r.elements = []) ∧
    (Walk.start r).value? = none ∧
    (∀ n, ((Walk.start r).moved n).move.1 = (r.elements[n]?).isSome ∧
      ((Walk.start r).moved (n + 1)).value? = r.elements[n]? ∧
      ((Walk.start r).moved n).reset = Walk.start r) ∧
    (∀ (k : Nat) (v : Int64), r.elements[k]? = some v →
      v.toInt = r.start.toInt + k * r.step.toInt) ∧
    (-2 ^ 63 ≤ r.reach ∧ r.reach < 2 ^ 63 ∧ r.length < 2 ^ 63) ∧
    (∀ v : Int64, (v.toInt - r.start.toInt).natAbs < 2 ^ 64) := by
  refine ⟨fun n hn => ?_, pairwise_elements, fun v => ?_, isEmpty_iff, rfl, fun n => ?_,
    fun k v h => ((elements_getElem? ..).mp h).2.1, reach_bounds, fun v => ?_⟩
  · ext k v
    rw [take_getElem? hn, elements_getElem?]
  · rw [contains_iff, mem_iff_getElem?]
    simp only [elements_getElem?]
    tauto
  · have h := Walk.at_moved r n
    exact ⟨h.move.2.1, h.move.2.2, congrArg Walk.start h.range_eq⟩
  · have := v.le_toInt
    have := v.toInt_lt
    have := r.start.le_toInt
    have := r.start.toInt_lt
    omega

def distance (r : Range) : Nat :=
  (if 0 < r.step then r.stop.toInt - r.start.toInt else r.start.toInt - r.stop.toInt).toNat

theorem reach_toNat : r.reach.toNat = min r.distance (2 ^ 63 - 1) := by
  unfold reach distance
  split <;> norm_num <;> omega

theorem lt_ceil_div {size d : Nat} (hsize : 0 < size) :
    k < (d + size - 1) / size ↔ k * size < d := by
  rw [← Nat.succ_le_iff, Nat.le_div_iff_mul_le hsize, Nat.succ_mul]
  omega

theorem lt_length (hstep : r.step ≠ 0) :
    k < r.length ↔ k * r.step.toInt.natAbs < r.distance ∧ k * r.step.toInt.natAbs < 2 ^ 63 - 1 := by
  have hsize : 0 < r.step.toInt.natAbs := Int.natAbs_pos.mpr (mt step_eq_zero.mpr hstep)
  rw [length, if_neg hstep, lt_ceil_div hsize, reach_toNat, Nat.lt_min]

theorem mul_lt_distance (k : Nat) :
    k * r.step.toInt.natAbs < r.distance ↔
      (0 < r.step.toInt → r.start.toInt + k * r.step.toInt < r.stop.toInt) ∧
      (¬ 0 < r.step.toInt → r.stop.toInt < r.start.toInt + k * r.step.toInt) := by
  unfold distance
  simp only [Int64.lt_iff_toInt_lt, Int64.toInt_zero, Int.lt_toNat, Nat.cast_mul]
  by_cases hs : 0 < r.step.toInt
  · rw [if_pos hs, Int.natAbs_of_nonneg (Int.le_of_lt hs)]
    simp only [hs, forall_const, not_true_eq_false, IsEmpty.forall_iff, and_true]
    omega
  · rw [if_neg hs, Int.ofNat_natAbs_of_nonpos (Int.not_lt.mp hs), Int.mul_neg]
    simp only [hs, forall_const, not_false_eq_true, IsEmpty.forall_iff, true_and]
    omega

theorem natAbs_sub_start (hv : r.elements[k]? = some v) :
    (v.toInt - r.start.toInt).natAbs = k * r.step.toInt.natAbs := by
  rw [((elements_getElem? ..).mp hv).2.1, add_sub_cancel_left, Int.natAbs_mul, Int.natAbs_natCast]

theorem lt_length_elements (hstep : r.step ≠ 0) :
    k < r.elements.length ↔ k * r.step.toInt.natAbs < r.distance := by
  rw [mul_lt_distance]
  constructor
  · intro hk
    obtain ⟨-, hv, hbefore⟩ := (elements_getElem? k _).mp (getElem?_eq_getElem hk)
    rwa [isBefore_iff, hv] at hbefore
  · intro hk
    -- Before the stop, and not before the start, every value is a word.
    have hfits : (Int64.ofInt (r.start.toInt + k * r.step.toInt)).toInt =
        r.start.toInt + k * r.step.toInt := by
      have hk0 : (0 : Int) ≤ k := Int.natCast_nonneg k
      apply Int64.toInt_ofInt_of_le <;> by_cases hs : 0 < r.step.toInt
      · nlinarith [r.start.le_toInt]
      · nlinarith [hk.2 hs, r.stop.le_toInt]
      · nlinarith [hk.1 hs, r.stop.toInt_lt]
      · nlinarith [r.start.toInt_lt]
    rw [← hfits, ← isBefore_iff] at hk
    exact (List.getElem?_eq_some_iff.mp ((elements_getElem? k _).mpr ⟨hstep, hfits, hk⟩)).1

theorem filter_eq_take {α : Type} {p : α → Bool} (as : List α) : ∀ n : Nat,
    (∀ (k : Nat) (a : α), as[k]? = some a → (p a = true ↔ k < n)) → as.filter p = as.take n := by
  induction as with
  | nil => simp
  | cons a as ih =>
    intro n hp
    have hfirst := hp 0 a rfl
    have hrest (k : Nat) (b : α) (hb : as[k]? = some b) : p b = true ↔ k + 1 < n := hp (k + 1) b hb
    cases n with
    | zero =>
      have hnone : as.filter p = as.take 0 := ih 0 fun k b hb => by rw [hrest k b hb]; omega
      rw [filter_cons_of_neg (by rw [hfirst]; omega), hnone]
      rfl
    | succ n =>
      rw [filter_cons_of_pos (hfirst.mpr (Nat.succ_pos n)), take_succ_cons,
        ih n fun k b hb => by rw [hrest k b hb]; omega]

theorem length_of_step_zero (hstep : r.step = 0) : r.length = 0 ∧ r.elements = [] := by
  refine ⟨if_pos hstep, isEmpty_iff.mp ?_⟩
  rw [isEmpty, length, if_pos hstep]
  rfl

theorem filter_elements :
    (r.elements.filter fun v => (v.toInt - r.start.toInt).natAbs < 2 ^ 63 - 1) =
      r.elements.take r.length := by
  by_cases hstep : r.step = 0
  · rw [(length_of_step_zero hstep).2, filter_nil, take_nil]
  refine filter_eq_take _ _ fun k v hv => ?_
  rw [decide_eq_true_iff, natAbs_sub_start hv, lt_length hstep]
  exact ⟨fun h => ⟨(lt_length_elements hstep).mp (List.getElem?_eq_some_iff.mp hv).1, h⟩, And.right⟩

theorem length_le : r.length ≤ r.elements.length := by
  by_cases hstep : r.step = 0
  · rw [(length_of_step_zero hstep).1]
    exact Nat.zero_le _
  · refine le_of_forall_lt fun k hk => ?_
    exact (lt_length_elements hstep).mpr ((lt_length hstep).mp hk).1

/-- The length is the number of the elements whose distance from the start is less than the largest
    integer, so of all elements exactly if there are no others. -/
theorem length_counts_near (r : Range) :
    r.length = (r.elements.filter fun v => (v.toInt - r.start.toInt).natAbs < 2 ^ 63 - 1).length ∧
    (r.length = r.elements.length ↔
      ∀ v ∈ r.elements, (v.toInt - r.start.toInt).natAbs < 2 ^ 63 - 1) ∧
    ((r.stop.toInt - r.start.toInt).natAbs < 2 ^ 63 → r.length = r.elements.length) := by
  have hcount : r.length =
      (r.elements.filter fun v => (v.toInt - r.start.toInt).natAbs < 2 ^ 63 - 1).length := by
    rw [filter_elements, length_take, Nat.min_eq_left length_le]
  have hall : r.length = r.elements.length ↔
      ∀ v ∈ r.elements, (v.toInt - r.start.toInt).natAbs < 2 ^ 63 - 1 := by
    rw [hcount, length_filter_eq_length_iff]
    simp only [decide_eq_true_iff]
  refine ⟨hcount, hall, fun hnear => hall.mpr fun v hv => ?_⟩
  obtain ⟨k, hk⟩ := mem_iff_getElem?.mp hv
  have hstep := ((elements_getElem? k v).mp hk).1
  have hlt := (lt_length_elements hstep).mp (List.getElem?_eq_some_iff.mp hk).1
  have hfar : r.distance ≤ (r.stop.toInt - r.start.toInt).natAbs := by
    unfold distance
    split <;> omega
  rw [natAbs_sub_start hk]
  omega

theorem length_of_all :
    let r : Range := ⟨Int64.minValue, Int64.maxValue, 1⟩
    r.length = 2 ^ 63 - 1 ∧ r.elements.length = 2 ^ 64 - 1 := by
  intro r
  have hstep : r.step ≠ 0 := by decide
  refine ⟨by decide, Nat.le_antisymm (Nat.le_of_not_lt ?_) (Nat.succ_le_of_lt ?_)⟩
  · rw [lt_length_elements hstep]
    decide
  · rw [lt_length_elements hstep]
    decide

end Range

end ClassScript
