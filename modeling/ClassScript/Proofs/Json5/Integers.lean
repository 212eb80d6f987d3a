import ClassScript.Proofs.Json5.RoundTrip

/-!
# Integers in Texts

In decimal, the sign is read together with the digits. In hexadecimal, the digits are read as a word
of their own, and the sign turns it around. The digits of the least word do not fit one, so this
word has a decimal spelling only.
-/

namespace ClassScript

open List

namespace Json

variable {k : Nat} {digits mark : List Char} {x : Char}

abbrev HexDigits (k : Nat) (digits : List Char) : Prop :=
  digits.map Char.toLower = Nat.toDigits 16 k

theorem hexDigit?_toLower (c : Char) : Digits.hexDigit? c.toLower = Digits.hexDigit? c := by
  by_cases hupper : c.val ≥ 'A'.val ∧ c.val ≤ 'Z'.val
  · have hall : ∀ k < 26, Digits.hexDigit? (Char.ofNat (k + 65)).toLower =
        Digits.hexDigit? (Char.ofNat (k + 65)) := by decide
    have hlow : 65 ≤ c.toNat := UInt32.le_iff_toNat_le.mp hupper.1
    have hhigh : c.toNat ≤ 90 := UInt32.le_iff_toNat_le.mp hupper.2
    have hc := hall (c.toNat - 65) (by omega)
    rwa [Nat.sub_add_cancel hlow, Char.ofNat_toNat] at hc
  · rw [Char.toLower, dif_neg hupper]

theorem hexDigit?_digitChar : ∀ k < 16, Digits.hexDigit? (Nat.digitChar k) = some k := by
  decide

theorem hexDigits_value (h : HexDigits k digits) :
    digits.foldl (fun n c => n.bind fun n => (Digits.hexDigit? c).map (16 * n + ·)) (some 0) =
      some k := by
  induction k using Nat.strongRecOn generalizing digits with
  | ind k ih =>
    have hlast {d : Char} {j : Nat} (hj : j < 16) (hd : d.toLower = Nat.digitChar j) :
        Digits.hexDigit? d = some j := by
      rw [← hexDigit?_toLower, hd, hexDigit?_digitChar j hj]
    unfold HexDigits at h
    by_cases hk : k < 16
    · rw [Nat.toDigits_of_lt_base hk, map_eq_singleton_iff] at h
      obtain ⟨d, rfl, hd⟩ := h
      simp [hlast hk hd]
    · rw [Nat.toDigits_of_base_le (by decide) (by omega), map_eq_append_iff] at h
      obtain ⟨front, last, rfl, hfront, hd⟩ := h
      obtain ⟨d, rfl, hdigit⟩ := map_eq_singleton_iff.mp hd
      rw [foldl_append, ih (k / 16) (by omega) hfront]
      simp only [foldl_cons, foldl_nil, Option.bind_some, hlast (Nat.mod_lt k (by decide)) hdigit,
        Option.map_some, Nat.div_add_mod]

theorem hex?_hexDigits (h : HexDigits k digits) : Digits.hex? digits = some k := by
  unfold Digits.hex?
  rw [if_neg, hexDigits_value h]
  rintro rfl
  exact Nat.toDigits_ne_nil h.symm

namespace Reader

theorem hexadecimal_reads (h : HexDigits k digits) (negative : Bool) (p : Place) :
    ∃ q, hexadecimal negative ⟨digits, p⟩ =
      (Word.ofInt? k).elim (.error (refusal q (.hexLiteral (String.ofList digits))))
        fun n => .ok (.int (if negative then -n else n), ⟨[], q⟩) := by
  have hhex := hex?_hexDigits h
  have hnone : ∀ c ∈ ([] : List Char).head?, (Digits.hexDigit? c).isSome = false := nofun
  obtain ⟨q, hspan⟩ := span_append (hexDigit?_of_hex? hhex) hnone p
  rw [append_nil] at hspan
  refine ⟨q, ?_⟩
  unfold hexadecimal
  rw [hspan]
  dsimp only
  rw [hhex, Option.bind_some]
  cases Word.ofInt? k <;> rfl

theorem number_hex (hmark : mark ∈ [[], ['+'], ['-']])
    (hx : x = 'x' ∨ x = 'X') (digits : List Char) (p : Place) :
    ∃ q, number ⟨mark ++ '0' :: x :: digits, p⟩ = hexadecimal (mark == ['-']) ⟨digits, q⟩ := by
  simp only [mem_cons, not_mem_nil, or_false] at hmark
  rcases hmark with rfl | rfl | rfl <;> rcases hx with rfl | rfl <;> exact ⟨_, rfl⟩

end Reader

open Reader

theorem parse_hex (hmark : mark ∈ [[], ['+'], ['-']])
    (hx : x = 'x' ∨ x = 'X') (h : HexDigits k digits) :
    ∃ q, parse (String.ofList (mark ++ '0' :: x :: digits)) =
      (Word.ofInt? k).elim (.error (refusal q (.hexLiteral (String.ofList digits))))
        fun n => .ok (.int (if mark == ['-'] then -n else n)) := by
  have hstarts : ∃ c rest, mark ++ '0' :: x :: digits = c :: rest ∧ startsNumber c = true ∧
      Text.isBlank c = false ∧ c ∉ marks := by
    simp only [mem_cons, not_mem_nil, or_false] at hmark
    rcases hmark with rfl | rfl | rfl <;> exact ⟨_, _, rfl, by decide⟩
  obtain ⟨c, rest, htext, hc, hsolid⟩ := hstarts
  obtain ⟨p, hnumber⟩ := number_hex hmark hx digits ⟨1, 1⟩
  obtain ⟨q, hread⟩ := hexadecimal_reads h (mark == ['-']) p
  refine ⟨q, ?_⟩
  rw [htext] at hnumber ⊢
  have htrivia : (start (c :: rest)).trivia = .ok (start (c :: rest)) :=
    skip_solid ⟨c, rest, rfl, hsolid⟩ _
  rw [parse, String.toList_ofList, htrivia]
  change (value JsonProblem.maxNesting ⟨c :: rest, ⟨1, 1⟩⟩ >>= _) = _
  rw [value_number hc, hnumber, hread]
  cases Word.ofInt? k <;> rfl

/-- Each word is read from its decimal spelling, and from its hexadecimal ones unless it is the
    least word, because the digits are read without the sign. -/
theorem parse_integer {n : Int64} {mark : List Char} (hmark : Signed n.toInt mark) :
    parse (String.ofList (mark ++ Nat.toDigits 10 n.toInt.natAbs)) = .ok (.int n) ∧
    ∀ (x : Char) (digits : List Char), x = 'x' ∨ x = 'X' → HexDigits n.toInt.natAbs digits →
      (n ≠ Int64.minValue →
        parse (String.ofList (mark ++ '0' :: x :: digits)) = .ok (.int n)) ∧
      (n = Int64.minValue → ∃ fault,
        parse (String.ofList (mark ++ '0' :: x :: digits)) = .error fault ∧
          fault.kind = .invalidOperation) := by
  have hsign : mark ∈ [[], ['+'], ['-']] := by cases hmark <;> simp
  have hdecimal : Spelling (.int n) (String.ofList (mark ++ Nat.toDigits 10 n.toInt.natAbs)) :=
    .mk .none (.int hmark.numeral) (.trivia .none) (by simp)
  refine ⟨parse_of_fits hdecimal (Nat.zero_le _), fun x digits hx hdigits => ?_⟩
  obtain ⟨q, hparse⟩ := parse_hex hsign hx hdigits
  rw [hparse]
  refine ⟨fun hn => ?_, ?_⟩
  · cases hmark with
    | plain h | plus h =>
      rw [Int.natAbs_of_nonneg h, ofInt?_toInt]
      rfl
    | minus h =>
      have hlow : -2 ^ 63 < n.toInt := by
        refine lt_of_le_of_ne (Int64.le_toInt n) fun heq => hn ?_
        rw [← Int64.toInt_inj, ← heq]
        rfl
      have hopposite : (-n).toInt = -n.toInt := by
        rw [Int64.toInt_neg, Int.bmod_eq_of_le] <;> omega
      rw [Int.ofNat_natAbs_of_nonpos h.le, ← hopposite, ofInt?_toInt]
      exact congrArg (fun n => Except.ok (int n)) (Int64.neg_neg (a := n))
  · rintro rfl
    have hnone : Word.ofInt? (Int64.minValue.toInt.natAbs : Nat) = none := by decide
    rw [hnone]
    exact ⟨_, rfl, rfl⟩

theorem parse_integer_sample :
    parse "-0X7fffFFFFffffFFFF" = .ok (.int (Int64.minValue + 1)) ∧
      parse "+42" = .ok (.int 42) := by
  have hdigits : HexDigits (Int64.minValue + 1).toInt.natAbs "7fffFFFFffffFFFF".toList := by decide
  exact ⟨((parse_integer (.minus (by decide))).2 'X' _ (.inr rfl) hdigits).1 (by decide),
    (parse_integer (n := 42) (.plus (by decide))).1⟩

theorem least_hex_refused :
    HexDigits Int64.minValue.toInt.natAbs "8000000000000000".toList ∧
      parse "-0x8000000000000000" ≠ .ok (.int Int64.minValue) :=
  ⟨by decide, nofun⟩

/-- From `10 ^ 16` on a whole float is written without a point, in digits that may fit a word. -/
theorem whole_float_reads_integer :
    floatText (Binary64.ofInt (10 ^ 16)) = "10000000000000000" ∧
      parse (floatText (Binary64.ofInt (10 ^ 16))) = .ok (.int 10000000000000000) := by
  have htext : floatText (Binary64.ofInt (10 ^ 16)) = "10000000000000000" := by decide +kernel
  exact ⟨htext, htext ▸ rfl⟩

end Json

end ClassScript
