import ClassScript.Proofs.Builtin
import ClassScript.Proofs.Ranges

/-!
# Integer Arithmetic Is Exact or Refused

A result on integers is the exact one, `exact?`, and it is refused if it does not fit into a word
or a divisor is zero. The remainder is refused with the quotient. This is the only result that
is refused although it fits: of the smallest word and -1.
-/

namespace ClassScript

def Operator.exact? (op : Operator) (a b : Int) : Option Int :=
  match op with
  | .add => some (a + b)
  | .sub => some (a - b)
  | .mul => some (a * b)
  | .div => if b = 0 then none else some (a.tdiv b)
  | .mod => if b = 0 then none else some (a.tmod b)
  | _ => none

def Operator.arithmetical : List Operator :=
  [.add, .sub, .mul, .div, .mod]

namespace Word

variable {n : Int} {a : Int64}

def Fits (n : Int) : Prop :=
  Int64.minValue.toInt ≤ n ∧ n ≤ Int64.maxValue.toInt

instance (n : Int) : Decidable (Fits n) :=
  inferInstanceAs (Decidable (_ ∧ _))

theorem fits_iff : Fits n ↔ -9223372036854775808 ≤ n ∧ n ≤ 9223372036854775807 := Iff.rfl

theorem fits_toInt (a : Int64) : Fits a.toInt :=
  ⟨a.minValue_le_toInt, a.toInt_le⟩

theorem ofInt?_eq_none : ofInt? n = none ↔ ¬ Fits n := by
  have hpow : ((Nat.pow 2 63 : Nat) : Int) = 9223372036854775808 := by decide
  unfold ofInt?
  rw [fits_iff, hpow]
  split <;> simp <;> omega

theorem exists_toInt (hn : Fits n) : ∃ c : Int64, c.toInt = n := by
  cases hc : ofInt? n with
  | some c => exact ⟨c, ofInt?_eq_some.mp hc⟩
  | none => exact absurd hn (ofInt?_eq_none.mp hc)

theorem fits_of_natAbs_le (hn : n.natAbs ≤ a.toInt.natAbs)
    (hsign : 0 ≤ a.toInt ∨ n ≤ 0) : Fits n := by
  have ha := fits_toInt a
  rw [fits_iff] at ha ⊢
  omega

theorem tmod_nonpos_of_neg {a : Int} (b : Int) (ha : a < 0) : a.tmod b ≤ 0 := by
  have hneg := Int.tmod_nonneg b (a := -a) (by omega)
  rw [Int.neg_tmod] at hneg
  omega

theorem fits_tmod (a b : Int64) : Fits (a.toInt.tmod b.toInt) := by
  refine fits_of_natAbs_le (a := a) ?_ ?_
  · rw [Int.natAbs_tmod]
    exact Nat.mod_le _ _
  · rcases Int.lt_or_le a.toInt 0 with hneg | hpos
    · exact .inr (tmod_nonpos_of_neg _ hneg)
    · exact .inl hpos

theorem fits_tdiv {b : Int64} (hb : b ≠ 0) :
    Fits (a.toInt.tdiv b.toInt) ↔ ¬ (a = Int64.minValue ∧ b = -1) := by
  constructor
  · rintro h ⟨rfl, rfl⟩
    exact absurd h (by decide)
  · intro h
    have ha := fits_toInt a
    have hzero : b.toInt ≠ 0 := fun h0 => hb (Int64.toInt_inj.mp h0)
    rcases (by omega : b.toInt = 1 ∨ b.toInt = -1 ∨ 2 ≤ b.toInt.natAbs) with hone | hneg | htwo
    · rwa [hone, Int.tdiv_one]
    · have hmin : a.toInt ≠ Int64.minValue.toInt := fun hmin =>
        h ⟨Int64.toInt_inj.mp hmin, Int64.toInt_inj.mp hneg⟩
      rw [hneg, Int.tdiv_neg, Int.tdiv_one, fits_iff]
      rw [fits_iff] at ha
      change a.toInt ≠ -9223372036854775808 at hmin
      omega
    · have hhalf : (a.toInt.tdiv b.toInt).natAbs ≤ a.toInt.natAbs / 2 := by
        rw [Int.natAbs_tdiv]
        exact Nat.div_le_div_left htwo (by decide)
      rw [fits_iff] at ha ⊢
      omega

theorem fits_tdiv_mul (a b : Int64) : Fits (a.toInt.tdiv b.toInt * b.toInt) := by
  have hsum := Int.tdiv_mul_add_tmod a.toInt b.toInt
  have hle : (a.toInt.tmod b.toInt).natAbs ≤ a.toInt.natAbs := by
    rw [Int.natAbs_tmod]
    exact Nat.mod_le _ _
  have ha := fits_toInt a
  rw [fits_iff] at ha ⊢
  rcases Int.lt_or_le a.toInt 0 with hneg | hpos
  · have hrem := tmod_nonpos_of_neg b.toInt hneg
    omega
  · have hrem := Int.tmod_nonneg b.toInt hpos
    omega

end Word

section Operators

variable {op : Operator} {a b : Int64}

theorem Operator.arithmetical_cases (hop : op ∈ Operator.arithmetical) :
    op = .add ∨ op = .sub ∨ op = .mul ∨ op = .div ∨ op = .mod := by
  simpa [Operator.arithmetical] using hop

theorem toInt_eq_zero : b.toInt = 0 ↔ b = 0 :=
  ⟨fun h => Int64.toInt_inj.mp h, fun h => h ▸ rfl⟩

theorem Operator.exact?_eq_none (hop : op ∈ Operator.arithmetical) :
    op.exact? a.toInt b.toInt = none ↔ (op = .div ∨ op = .mod) ∧ b = 0 := by
  unfold Operator.exact?
  rcases Operator.arithmetical_cases hop with rfl | rfl | rfl | rfl | rfl <;> simp [toInt_eq_zero]

namespace Numeral

theorem intResult_eq_some (hop : op ∈ Operator.arithmetical) {c : Int64} :
    intResult op a b = some c ↔ op.exact? a.toInt b.toInt = some c.toInt ∧
      ¬ (op = .mod ∧ a = Int64.minValue ∧ b = -1) := by
  have hexact (n : Int) : Word.ofInt? n = some c ↔ some n = some c.toInt := by
    rw [Word.ofInt?_eq_some, Option.some.injEq, eq_comm]
  unfold intResult Operator.exact?
  rcases Operator.arithmetical_cases hop with rfl | rfl | rfl | rfl | rfl
  · simp [Word.add?, hexact]
  · simp [Word.sub?, hexact]
  · simp [Word.mul?, hexact]
  · by_cases hb : b = 0 <;> simp [Word.div?, hb, toInt_eq_zero, hexact]
  · by_cases hb : b = 0
    · simp [Word.rem?, hb]
    · have hfits : (∃ q, Word.ofInt? (a.toInt.tdiv b.toInt) = some q) ↔
          ¬ (a = Int64.minValue ∧ b = -1) := by
        rw [← Option.isSome_iff_exists, ← Option.ne_none_iff_isSome, Ne, Word.ofInt?_eq_none,
          not_not, Word.fits_tdiv hb]
      simp [Word.rem?, hb, toInt_eq_zero, hexact, Option.bind_eq_some_iff, hfits, and_comm]

theorem arithmetic_int (hop : op ∈ Operator.arithmetical) :
    arithmetic op (.int a) (.int b) = if op.exact? a.toInt b.toInt = none then
      .error (.byZero op.symbol) else fitting op .int (intResult op a b) := by
  have hzero : (isZero (.int b) && (op == .div || op == .mod)) = true ↔
      op.exact? a.toInt b.toInt = none := by
    rw [Operator.exact?_eq_none hop]
    simp [isZero, and_comm]
  change (if (isZero (.int b) && (op == .div || op == .mod)) = true then _ else _) = _
  rw [if_congr hzero rfl rfl]
  rfl

end Numeral

end Operators

/-- The exact result if it is a word, and otherwise the fault that says why not. -/
structure Operator.ExactOrRefused (op : Operator) (a b : Int64) (m : Machine) (o : Outcome Value) :
    Prop where
  exact : ∀ c, o = .done (.int c) m ↔ op.exact? a.toInt b.toInt = some c.toInt ∧
    ¬ (op = .mod ∧ a = Int64.minValue ∧ b = -1)
  byZero : o = .failed (.fault (.byZero op.symbol) none []) m ↔ (op = .div ∨ op = .mod) ∧ b = 0
  overflow : o = .failed (.fault (.overflow op.symbol) none []) m ↔
    ∃ x, op.exact? a.toInt b.toInt = some x ∧
      (¬ Word.Fits x ∨ op = .mod ∧ a = Int64.minValue ∧ b = -1)

theorem Operation.native_exactOrRefused {op : Operator} (hop : op ∈ Operator.arithmetical)
    (L : Level) (a b : Int64) (m : Machine) :
    op.ExactOrRefused a b m (native L .number op (.int a) [.int b] m) := by
  have hnative : native L .number op (.int a) [.int b] m =
      Eval.ofExcept (Numeral.arithmetic op (.int a) (.int b)) m := by
    rcases Operator.arithmetical_cases hop with rfl | rfl | rfl | rfl | rfl <;> rfl
  have hnone := Operator.exact?_eq_none (a := a) (b := b) hop
  have hsome (c : Int64) := Numeral.intResult_eq_some (a := a) (b := b) hop (c := c)
  rw [hnative, Numeral.arithmetic_int hop]
  cases hexact : op.exact? a.toInt b.toInt with
  | none =>
    rw [if_pos rfl]
    refine ⟨fun c => ⟨nofun, fun h => ?_⟩, ⟨fun _ => hnone.mp hexact, fun _ => rfl⟩, ⟨nofun, ?_⟩⟩
    · exact absurd (hexact.symm.trans h.1) nofun
    · rintro ⟨x, hx, -⟩
      exact absurd (hexact.symm.trans hx) nofun
  | some x =>
    have hdivisor : ¬ ((op = .div ∨ op = .mod) ∧ b = 0) := fun h => by
      rw [hnone.mpr h] at hexact
      cases hexact
    rw [if_neg nofun]
    cases hresult : Numeral.intResult op a b with
    | some c =>
      obtain ⟨hx, hquotient⟩ := (hsome c).mp hresult
      have hfits : Word.Fits x := Option.some.inj (hexact.symm.trans hx) ▸ Word.fits_toInt c
      refine ⟨fun d => ?_, ⟨nofun, fun h => absurd h hdivisor⟩, ⟨nofun, ?_⟩⟩
      · rw [← hsome d, hresult]
        exact ⟨fun h => by cases h; rfl, fun h => by cases h; rfl⟩
      · rintro ⟨y, hy, hnot | hrefused⟩
        · exact absurd (Option.some.inj (hexact.symm.trans hy) ▸ hfits) hnot
        · exact absurd hrefused hquotient
    | none =>
      refine ⟨fun d => ⟨nofun, fun h => ?_⟩, ⟨nofun, fun h => absurd h hdivisor⟩,
        ⟨fun _ => ?_, fun _ => rfl⟩⟩
      · rw [(hsome d).mpr h] at hresult
        cases hresult
      · refine ⟨x, hexact, ?_⟩
        by_contra hcontra
        obtain ⟨hfits, hquotient⟩ := not_or.mp hcontra
        obtain ⟨c, hc⟩ := Word.exists_toInt (not_not.mp hfits)
        rw [(hsome c).mpr ⟨by rw [hexact, hc], hquotient⟩] at hresult
        cases hresult

theorem Operation.native_negate (L : Level) (a : Int64) (m : Machine) :
    (∀ c, native L .number .neg (.int a) [] m = .done (.int c) m ↔ c.toInt = -a.toInt) ∧
      (native L .number .neg (.int a) [] m =
        .failed (.fault (.overflow Operator.neg.symbol) none []) m ↔ ¬ Word.Fits (-a.toInt)) := by
  change (∀ c, Eval.ofExcept (Numeral.fitting .neg .int (Word.ofInt? (-a.toInt))) m = _ ↔ _) ∧
    (Eval.ofExcept (Numeral.fitting .neg .int (Word.ofInt? (-a.toInt))) m = _ ↔ _)
  have hsome (c : Int64) := Word.ofInt?_eq_some (n := -a.toInt) (c := c)
  have hnone := Word.ofInt?_eq_none (n := -a.toInt)
  cases hresult : Word.ofInt? (-a.toInt) with
  | some c =>
    refine ⟨fun d => ?_, ⟨nofun, fun h => ?_⟩⟩
    · rw [← hsome d, hresult]
      exact ⟨fun h => by cases h; rfl, fun h => by cases h; rfl⟩
    · rw [hnone.mpr h] at hresult
      cases hresult
  | none =>
    refine ⟨fun d => ⟨nofun, fun h => ?_⟩, ⟨fun _ => hnone.mp hresult, fun _ => rfl⟩⟩
    rw [(hsome d).mpr h] at hresult
    cases hresult

/-- At any time of a session, arithmetic on integers is exact or refused. It is refused for a zero
    divisor, if the result is no word, and for the remainder of the smallest word and -1. -/
theorem InSession.arithmetic_exact {m₀ m : Machine} (hm : InSession m₀) (hrun : m₀.Runs m)
    {watch : Machine → Bool} (hwatch : watch m = false) (n : Nat) (span : Span) (a b : Int64) :
    let apply (op : Operator) (left : Int64) (rest : List Value) :=
      (watchedLevel watch (n + 1)).operate op (.int left) rest span m
    (∀ op ∈ Operator.arithmetical, op.ExactOrRefused a b m (apply op a [.int b])) ∧
    (∀ c, apply .neg a [] = .done (.int c) m ↔ c.toInt = -a.toInt) ∧
    (apply .neg a [] = .failed (.fault (.overflow Operator.neg.symbol) none []) m ↔
      ¬ Word.Fits (-a.toInt)) ∧
    (b ≠ 0 → Word.Fits (a.toInt.tdiv b.toInt) → ∃ quotient product remainder,
      apply .div a [.int b] = .done (.int quotient) m ∧
      apply .mul quotient [.int b] = .done (.int product) m ∧
      apply .mod a [.int b] = .done (.int remainder) m ∧
      apply .add product [.int remainder] = .done (.int a) m) := by
  intro apply
  have hnative (op : Operator) (hop : op ∈ World.numberOperators) (left : Int64) (rest : List Value)
      (hnull : Operation.nullEquality op (.int left) rest = none)
      (htext : ∀ v ∈ rest, v.str? = none) :
      apply op left rest = Operation.native (watchedLevel watch n) .number op (.int left) rest m :=
    hm.operate_plain hrun hwatch n (m.heap.typeOf_isPlain (v := .int left) nofun) hnull
      (fun _ => List.forall_mem_cons.mpr ⟨rfl, htext⟩) (World.int_operators op hop) span
  have hexact (op : Operator) (hop : op ∈ Operator.arithmetical) (left right : Int64) :
      op.ExactOrRefused left right m (apply op left [.int right]) := by
    have hcases := Operator.arithmetical_cases hop
    have hnumber : op ∈ World.numberOperators := by
      rcases hcases with rfl | rfl | rfl | rfl | rfl <;> decide
    have hnull : Operation.nullEquality op (.int left) [.int right] = none := by
      rcases hcases with rfl | rfl | rfl | rfl | rfl <;> rfl
    rw [hnative op hnumber left _ hnull (by simp [Value.str?])]
    exact Operation.native_exactOrRefused hop _ left right m
  have hneg := Operation.native_negate (watchedLevel watch n) a m
  rw [← hnative .neg (by decide) a [] rfl (by simp)] at hneg
  refine ⟨fun op hop => hexact op hop a b, hneg.1, hneg.2, fun hb hfits => ?_⟩
  have hpair : ¬ (a = Int64.minValue ∧ b = -1) := (Word.fits_tdiv hb).mp hfits
  have hzero : b.toInt ≠ 0 := fun h => hb (toInt_eq_zero.mp h)
  obtain ⟨quotient, hquotient⟩ := Word.exists_toInt hfits
  obtain ⟨product, hproduct⟩ := Word.exists_toInt (Word.fits_tdiv_mul a b)
  obtain ⟨remainder, hremainder⟩ := Word.exists_toInt (Word.fits_tmod a b)
  refine ⟨quotient, product, remainder, ?_, ?_, ?_, ?_⟩
  · refine ((hexact .div (by decide) a b).exact quotient).mpr ⟨?_, nofun⟩
    rw [hquotient]
    exact if_neg hzero
  · refine ((hexact .mul (by decide) quotient b).exact product).mpr ⟨?_, nofun⟩
    rw [hproduct, hquotient]
    rfl
  · refine ((hexact .mod (by decide) a b).exact remainder).mpr ⟨?_, fun h => hpair h.2⟩
    rw [hremainder]
    exact if_neg hzero
  · refine ((hexact .add (by decide) product remainder).exact a).mpr ⟨?_, nofun⟩
    rw [hproduct, hremainder]
    exact congrArg some (Int.tdiv_mul_add_tmod a.toInt b.toInt)

theorem InSession.arithmetic_exact_sample :
    let m := Machine.declaring Declaration.box
    (level 20).operate .mod (.int (-7)) [.int 2] default m = .done (.int (-1)) m ∧
      (level 20).operate .div (.int (-7)) [.int 0] default m =
        .failed (.fault (.byZero "/") none []) m := by
  intro m
  have hexact (b : Int64) := (@InSession.arithmetic_exact _ _ (.declaring Declaration.box) .refl
    (fun _ => false) rfl 19 default (-7) b).1
  exact ⟨((hexact 2 .mod (by decide)).exact (-1)).mpr (by decide),
    (hexact 0 .div (by decide)).byZero.mpr (by decide)⟩

theorem Operation.zero_remainder_refused :
    let m := Machine.declaring Declaration.box
    native (level 20) .number .mod (.int Int64.minValue) [.int (-1)] m =
        .failed (.fault (.overflow "%") none []) m ∧
      Operator.mod.exact? Int64.minValue.toInt (-1 : Int64).toInt = some 0 ∧ Word.Fits 0 :=
  ⟨rfl, by decide, by decide⟩

end ClassScript
